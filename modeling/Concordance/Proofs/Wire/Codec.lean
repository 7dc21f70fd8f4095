import Concordance.Proofs.Fallible
import Concordance.Proofs.SortedMap
import Concordance.Proofs.Wire.Bytes
import Concordance.Wire.Codec

/-!
# What is written is read back

A codec is `Faithful` for the values that fit its fields when it reads such a value back from its
bytes, whatever stands behind them. There is one rule for each way to build a codec. Lengths need no
care of their own: no encoding is empty, so a list has no more items than bytes, and bytes that can
be addressed with 64 bits have a length that eight bytes can hold.
-/

namespace Concordance.Wire.Codec

variable {α β : Type}

/-- A codec reads back the values that fit. -/
structure Faithful (c : Codec α) (fits : α → Prop) : Prop where
  nonempty : ∀ a, c.encode a ≠ []
  reads : ∀ a, fits a → (c.encode a).length < word64 →
    ∀ rest, c.decode (c.encode a ++ rest) = .ok (a, rest)

theorem Faithful.mono {c : Codec α} {f g : α → Prop} (h : c.Faithful f) (hg : ∀ a, g a → f a) :
    c.Faithful g :=
  ⟨h.nonempty, fun a ha => h.reads a (hg a ha)⟩

theorem Faithful.length_pos {c : Codec α} {f : α → Prop} (h : c.Faithful f) (a : α) :
    0 < (c.encode a).length :=
  List.length_pos_iff.mpr (h.nonempty a)

/-- A value is read back from its bytes alone. -/
theorem Faithful.decodeAll {c : Codec α} {f : α → Prop} (h : c.Faithful f) {a : α} (ha : f a)
    (hlength : (c.encode a).length < word64) : c.decodeAll (c.encode a) = .ok a := by
  have := h.reads a ha hlength []
  rw [List.append_nil] at this
  rw [Codec.decodeAll, this]
  rfl

/-! ## Numbers -/

theorem decode_nat {width n : Nat} (h : n < 256 ^ width) (rest : List UInt8) :
    (nat width).decode (littleEndian width n ++ rest) = .ok (n, rest) := by
  have hlength := length_littleEndian width n
  show (if (littleEndian width n ++ rest).length < width then Except.error DecodeFault.endOfInput
    else .ok (ofLittleEndian ((littleEndian width n ++ rest).take width),
      (littleEndian width n ++ rest).drop width)) = _
  rw [if_neg (by rw [List.length_append, hlength]; omega), List.take_left' hlength,
    List.drop_left' hlength, ofLittleEndian_of_lt h]

theorem faithful_nat {width : Nat} (hwidth : 0 < width) :
    (nat width).Faithful fun n => n < 256 ^ width where
  nonempty n hnil := by
    have hlength := length_littleEndian width n
    rw [show littleEndian width n = [] from hnil, List.length_nil] at hlength
    omega
  reads _ hn _ := decode_nat hn

theorem decode_nat8 {n : Nat} (h : n < word64) (rest : List UInt8) :
    (nat 8).decode (littleEndian 8 n ++ rest) = .ok (n, rest) :=
  decode_nat (by simpa [word64] using h) rest

/-- Values that correspond to values that fit. -/
theorem Faithful.imapOn {c : Codec α} {f : α → Prop} (h : c.Faithful f) {g : β → Prop}
    {toInner : β → α} {ofInner : α → β}
    (hinv : ∀ b, g b → f (toInner b) ∧ ofInner (toInner b) = b) :
    (c.imap toInner ofInner).Faithful g where
  nonempty b := h.nonempty (toInner b)
  reads b hb hlength rest := by
    show (c.decode (c.encode (toInner b) ++ rest)).map _ = _
    rw [h.reads (toInner b) (hinv b hb).1 hlength rest]
    show Except.ok (ofInner (toInner b), rest) = _
    rw [(hinv b hb).2]

/-- The codec of a type whose values correspond to those of another one. -/
theorem Faithful.imap {c : Codec α} {f : α → Prop} (h : c.Faithful f) {toInner : β → α}
    {ofInner : α → β} (hinv : ∀ b, ofInner (toInner b) = b) :
    (c.imap toInner ofInner).Faithful fun b => f (toInner b) :=
  h.imapOn fun b hb => ⟨hb, hinv b⟩

theorem Faithful.refine {c : Codec α} {f : α → Prop} (h : c.Faithful f) {toInner : β → α}
    {ofInner : α → Except DecodeFault β} (hinv : ∀ b, ofInner (toInner b) = .ok b) :
    (c.refine toInner ofInner).Faithful fun b => f (toInner b) where
  nonempty b := h.nonempty (toInner b)
  reads b hb hlength rest := by
    exact (Fallible.bind_of_ok (h.reads (toInner b) hb hlength rest) _).trans
      (Fallible.bind_of_ok (hinv b) _)

/-- Signed words of 64 bits. -/
theorem faithful_int :
    Codec.int.Faithful fun n => -(Number.half64 : Int) ≤ n ∧ n < Number.half64 := by
  refine (faithful_nat (show 0 < 8 by decide)).imapOn fun n hn => ?_
  have hword : (word64 : Int) = 2 * Number.half64 := by decide
  have hpow : word64 = 256 ^ 8 := by decide
  have hpositive : (0 : Int) < Number.half64 := by decide
  have hless := Int.emod_lt_of_pos n (show (0 : Int) < word64 by decide)
  have hnonneg := Int.emod_nonneg n (show (word64 : Int) ≠ 0 by decide)
  refine ⟨by omega, ?_⟩
  by_cases hsign : 0 ≤ n
  · have hmod : n % word64 = n := Int.emod_eq_of_lt hsign (by omega)
    rw [hmod, if_pos (by omega), Int.toNat_of_nonneg hsign]
  · -- a negative number is written as the word above it by 2^64
    have hmod : n % word64 = n + word64 := by
      rw [← Int.add_emod_right, Int.emod_eq_of_lt (by omega) (by omega)]
    rw [hmod, if_neg (by omega), Int.toNat_of_nonneg (by omega)]
    omega

theorem faithful_double : Codec.double.Faithful fun _ => True := by
  refine Faithful.mono ((faithful_nat (show 0 < 8 by decide)).imap fun x => ?_) fun x _ => ?_
  · simp
  · have := x.bits.toNat_lt
    omega

/-! ## Byte strings and texts -/

theorem faithful_bytes : Codec.bytes.Faithful fun _ => True where
  nonempty b hnil := by
    have := congrArg List.length hnil
    rw [show Codec.bytes.encode b = littleEndian 8 b.length ++ b from rfl, List.length_append,
      length_littleEndian] at this
    simp at this
  reads b _ hlength rest := by
    have hencode : Codec.bytes.encode b = littleEndian 8 b.length ++ b := rfl
    rw [hencode, List.length_append] at hlength
    have hb : b.length < word64 := by omega
    rw [hencode, List.append_assoc]
    refine (Fallible.bind_of_ok (decode_nat8 hb _) _).trans ?_
    show (if (b ++ rest).length < b.length then Except.error DecodeFault.short
      else .ok ((b ++ rest).take b.length, (b ++ rest).drop b.length)) = _
    rw [if_neg (by rw [List.length_append]; omega), List.take_left, List.drop_left]

theorem faithful_text : Codec.text.Faithful fun _ => True := by
  refine Faithful.mono (faithful_bytes.refine fun s => ?_) fun _ _ => trivial
  rw [textOfBytes?_textBytes]

/-! ## Values one behind another -/

theorem Faithful.pair {a : Codec α} {b : Codec β} {f : α → Prop} {g : β → Prop}
    (ha : a.Faithful f) (hb : b.Faithful g) : (a.pair b).Faithful fun p => f p.1 ∧ g p.2 where
  nonempty p hnil := ha.nonempty p.1 (List.append_eq_nil_iff.mp hnil).1
  reads p hp hlength rest := by
    have hencode : (a.pair b).encode p = a.encode p.1 ++ b.encode p.2 := rfl
    rw [hencode, List.length_append] at hlength
    rw [hencode, List.append_assoc]
    exact (Fallible.bind_of_ok (ha.reads p.1 hp.1 (by omega) _) _).trans
      (Fallible.bind_of_ok (hb.reads p.2 hp.2 (by omega) rest) _)

theorem Faithful.option {c : Codec α} {f : α → Prop} (h : c.Faithful f) :
    (Codec.option c).Faithful fun o => ∀ a, o = some a → f a where
  nonempty o hnil := by cases o <;> cases hnil
  reads o ho hlength rest := by
    cases o with
    | none => rfl
    | some a =>
        have hshort : (c.encode a).length < word64 := by
          rw [show (Codec.option c).encode (some a) = 1 :: c.encode a from rfl,
            List.length_cons] at hlength
          omega
        show (c.decode (c.encode a ++ rest)).map _ = _
        rw [h.reads a (ho a rfl) hshort rest]
        rfl

theorem Faithful.decodeTimes {c : Codec α} {f : α → Prop} (h : c.Faithful f) {l : List α}
    (hl : ∀ a ∈ l, f a) (hlength : (l.flatMap c.encode).length < word64) (rest : List UInt8) :
    c.decodeTimes l.length (l.flatMap c.encode ++ rest) = .ok (l, rest) := by
  induction l with
  | nil => rfl
  | cons a more ih =>
      rw [List.flatMap_cons, List.length_append] at hlength
      rw [List.flatMap_cons, List.append_assoc, List.length_cons]
      have hfirst := h.reads a (hl a List.mem_cons_self) (by omega) (more.flatMap c.encode ++ rest)
      have hmore := ih (fun x hx => hl x (List.mem_cons_of_mem _ hx)) (by omega)
      exact (Fallible.bind_of_ok hfirst _).trans (Fallible.bind_of_ok hmore _)

/-- A list has no more items than its items have bytes. -/
theorem Faithful.length_le {c : Codec α} {f : α → Prop} (h : c.Faithful f) (l : List α) :
    l.length ≤ (l.flatMap c.encode).length := by
  induction l with
  | nil => exact Nat.le_refl 0
  | cons a more ih =>
      have := h.length_pos a
      rw [List.flatMap_cons, List.length_append, List.length_cons]
      omega

theorem Faithful.list {c : Codec α} {f : α → Prop} (h : c.Faithful f) :
    (Codec.list c).Faithful fun l => ∀ a ∈ l, f a where
  nonempty l hnil := by
    have := congrArg List.length (List.append_eq_nil_iff.mp hnil).1
    rw [length_littleEndian] at this
    simp at this
  reads l hl hlength rest := by
    have hcount := h.length_le l
    have hencode : (Codec.list c).encode l = littleEndian 8 l.length ++ l.flatMap c.encode := rfl
    rw [hencode, List.length_append] at hlength
    rw [hencode, List.append_assoc]
    -- there are no more items than bytes, so eight bytes hold their count
    exact (Fallible.bind_of_ok (decode_nat8 (by omega) _) _).trans
      (h.decodeTimes hl (by omega) rest)

theorem Faithful.map {κ : Type} [Ord κ] [Std.TransOrd κ] {key : Codec κ} {value : Codec α}
    {f : κ → Prop} {g : α → Prop} (hkey : key.Faithful f) (hvalue : value.Faithful g) :
    (Codec.map key value).Faithful fun m => ∀ e ∈ m.toList, f e.1 ∧ g e.2 :=
  (hkey.pair hvalue).list.imap SortedMap.ofList_toList

/-! ## Choices -/

theorem faithful_placeIn [BEq α] [LawfulBEq α] {values : List α} (hvalues : values.length < word32)
    (hall : ∀ a, a ∈ values) : (placeIn values).Faithful fun _ => True := by
  refine Faithful.mono ((faithful_nat (show 0 < 4 by decide)).refine fun a => ?_) fun a _ => ?_
  · have hlt : values.findIdx (· == a) < values.length :=
      List.findIdx_lt_length_of_exists ⟨a, hall a, by simp⟩
    rw [List.getElem?_eq_getElem hlt]
    have hfound := List.findIdx_getElem (w := hlt)
    exact congrArg Except.ok (eq_of_beq hfound)
  · have hlt : values.findIdx (· == a) < values.length :=
      List.findIdx_lt_length_of_exists ⟨a, hall a, by simp⟩
    have : word32 = 256 ^ 4 := by decide
    omega

/-- The reader of a choice goes on with the reader of the constructor. -/
theorem decodeTagged_tagged
    {branches : List (List UInt8 → Except DecodeFault (β × List UInt8))} {tag : Nat}
    {read : List UInt8 → Except DecodeFault (β × List UInt8)} (hread : branches[tag]? = some read)
    (htag : tag < word32) (bytes rest : List UInt8) :
    decodeTagged branches (tagged tag bytes ++ rest) = read (bytes ++ rest) := by
  have hword : word32 = 256 ^ 4 := by decide
  unfold decodeTagged tagged
  rw [List.append_assoc, Fallible.bind_of_ok (decode_nat (hword ▸ htag) _)]
  dsimp only
  rw [hread]

theorem Faithful.branch {c : Codec α} {f : α → Prop} (h : c.Faithful f) {a : α} (ha : f a)
    (hlength : (c.encode a).length < word64) (build : α → β) (rest : List UInt8) :
    branch c build (c.encode a ++ rest) = .ok (build a, rest) := by
  unfold Codec.branch
  rw [h.reads a ha hlength]
  rfl

theorem tagged_ne_nil (tag : Nat) (bytes : List UInt8) : tagged tag bytes ≠ [] := by
  intro hnil
  have := congrArg List.length (List.append_eq_nil_iff.mp hnil).1
  rw [length_littleEndian] at this
  simp at this

theorem length_tagged (tag : Nat) (bytes : List UInt8) :
    (tagged tag bytes).length = 4 + bytes.length := by
  rw [tagged, List.length_append, length_littleEndian]

end Concordance.Wire.Codec
