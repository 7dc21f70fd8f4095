import Concordance.Proofs.Wire.Reader

/-!
# What a read has looked at

A read is `Local` if it looks at no more bytes than it takes: whenever it answers, it answers the
same whatever stands behind the bytes that it has taken. Streams are read by local reads one behind
the other; an answer tells where the stream ends (`Takes.unique`).
-/

namespace Concordance.Wire

variable {α β ε ε' : Type}

/-- A read that answers takes bytes, and would answer so whatever stood behind them. -/
def Local (read : Decoding ε α) : Prop :=
  ∀ (r : Reader) (a : α) (r' : Reader), read r = (.ok a, r') →
    ∃ bytes, r.rest = bytes ++ r'.rest ∧ Takes read bytes a

/-- What a read has taken does not depend on what stands behind it. -/
theorem Takes.unique {read : Decoding ε α} {b b' more more' : List UInt8} {a a' : α}
    (h : Takes read b a) (h' : Takes read b' a') (heq : b ++ more = b' ++ more') :
    b = b' ∧ a = a' := by
  have hread := h ⟨b ++ more, Checksum.start, 0⟩ more rfl
  rw [h' ⟨b ++ more, Checksum.start, 0⟩ more' heq] at hread
  obtain ⟨hanswer, hreader⟩ := Prod.mk.inj hread
  have hrest : more' = more := congrArg Reader.rest hreader
  rw [hrest] at heq
  exact ⟨List.append_cancel_right heq, (Except.ok.inj hanswer).symm⟩

/-- A sequence of reads answers if both answer. -/
theorem bind_eq_ok {x : Decoding ε α} {f : α → Decoding ε β} {r r' : Reader} {b : β}
    (h : (x >>= f) r = (.ok b, r')) :
    ∃ a r₁, x r = (.ok a, r₁) ∧ f a r₁ = (.ok b, r') := by
  cases hx : x r with
  | mk answer r₁ =>
      cases answer with
      | error e =>
          rw [bind_of_error hx] at h
          cases h
      | ok a =>
          rw [bind_of_ok hx] at h
          exact ⟨a, r₁, rfl, h⟩

/-- A read with another fault answers if the read does. -/
theorem adapt_eq_ok {x : Decoding ε α} {f : ε → ε'} {r r' : Reader} {a : α}
    (h : ExceptT.adapt f x r = (.ok a, r')) : x r = (.ok a, r') := by
  cases hx : x r with
  | mk answer r₁ =>
      cases answer with
      | error e =>
          rw [adapt_of_error f hx] at h
          cases h
      | ok a₁ =>
          rw [adapt_of_ok f hx] at h
          cases h
          rfl

namespace Local

theorem pure (a : α) : Local (pure a : Decoding ε α) := by
  intro r a' r' h
  cases h
  exact ⟨[], rfl, .pure a⟩

theorem throw (e : ε) : Local (throw e : Decoding ε α) := nofun

theorem bind {x : Decoding ε α} {f : α → Decoding ε β} (hx : Local x) (hf : ∀ a, Local (f a)) :
    Local (x >>= f) := by
  intro r b r' h
  obtain ⟨a, r₁, hfirst, hsecond⟩ := bind_eq_ok h
  obtain ⟨first, hrest, htakes⟩ := hx r a r₁ hfirst
  obtain ⟨second, hrest', htakes'⟩ := hf a r₁ b r' hsecond
  exact ⟨first ++ second, by rw [hrest, hrest', List.append_assoc], htakes.bind htakes'⟩

theorem adapt {x : Decoding ε α} (hx : Local x) (f : ε → ε') : Local (ExceptT.adapt f x) := by
  intro r a r' h
  obtain ⟨bytes, hrest, htakes⟩ := hx r a r' (adapt_eq_ok h)
  exact ⟨bytes, hrest, htakes.adapt f⟩

theorem ite {x y : Decoding ε α} {c : Prop} [Decidable c] (hx : Local x) (hy : Local y) :
    Local (if c then x else y) := by
  split
  · exact hx
  · exact hy

end Local

namespace Read

/-- A read of a known number of bytes is local. -/
theorem local_of_take {read : Read α} (width : Nat) (value : List UInt8 → α)
    (h : ∀ r : Reader, width ≤ r.rest.length →
      read r = (.ok (value (r.rest.take width)), r.accept (r.rest.take width) (r.rest.drop width)))
    (hshort : ∀ r : Reader, r.rest.length < width → ∃ e, (read r).1 = .error e) : Local read := by
  intro r a r' hread
  have hlong : width ≤ r.rest.length := by
    refine Nat.le_of_not_lt fun hless => ?_
    obtain ⟨e, he⟩ := hshort r hless
    rw [hread] at he
    cases he
  rw [h r hlong] at hread
  cases hread
  refine ⟨r.rest.take width, (List.take_append_drop width r.rest).symm, fun s more hs => ?_⟩
  have hwidth : (r.rest.take width).length = width := by
    rw [List.length_take]
    omega
  rw [h s (by rw [hs, List.length_append]; omega), hs, List.take_left' hwidth,
    List.drop_left' hwidth]

/-- A number of fixed width that is read is what stands there. -/
theorem fixed_eq_ok {width n : Nat} {r r' : Reader} (h : fixed width r = (.ok n, r')) :
    n < 256 ^ width ∧ r.rest = littleEndian width n ++ r'.rest ∧
      r' = r.accept (littleEndian width n) r'.rest := by
  unfold fixed at h
  dsimp only at h
  split at h
  · cases h
  · next hlong =>
      cases h
      have hwidth : (r.rest.take width).length = width := by
        have := List.length_take_le width r.rest
        omega
      have hbytes := littleEndian_ofLittleEndian (r.rest.take width)
      have hvalue := ofLittleEndian_littleEndian width (ofLittleEndian (r.rest.take width))
      rw [hwidth] at hbytes
      rw [hbytes] at hvalue
      refine ⟨?_, ?_, ?_⟩
      · rw [hvalue]
        exact Nat.mod_lt _ (Nat.pow_pos (by decide))
      · rw [hbytes]
        exact (List.take_append_drop width r.rest).symm
      · rw [hbytes]
        rfl

/-- Bytes of a known count that are read are what stands there. -/
theorem raw_eq_ok {length : Nat} {bytes : List UInt8} {r r' : Reader}
    (h : raw length r = (.ok bytes, r')) :
    bytes.length = length ∧ r.rest = bytes ++ r'.rest ∧ r' = r.accept bytes r'.rest := by
  unfold raw at h
  dsimp only at h
  split at h
  · cases h
  · next hlong =>
      cases h
      refine ⟨?_, (List.take_append_drop length r.rest).symm, rfl⟩
      have := List.length_take_le length r.rest
      omega

theorem local_fixed (width : Nat) : Local (fixed width) := by
  refine local_of_take width ofLittleEndian (fun r h => ?_) fun r h => ?_
  · unfold fixed
    dsimp only
    rw [if_neg (by rw [List.length_take]; omega)]
  · exact ⟨_, congrArg Prod.fst (fixed_of_short h)⟩

theorem local_raw (length : Nat) : Local (raw length) := by
  refine local_of_take length id (fun r h => ?_) fun r h => ?_
  · unfold raw
    dsimp only
    rw [if_neg (by rw [List.length_take]; omega), id]
  · unfold raw
    dsimp only
    rw [if_pos (by rw [List.length_take]; omega)]
    exact ⟨_, rfl⟩

theorem local_varint : Local varint := by
  intro r value r' h
  rw [varint_eq] at h
  split at h
  · next hfits =>
      cases h
      refine ⟨Varint.leading r.rest, (Varint.leading_append_drop r.rest).symm, fun s more hs => ?_⟩
      obtain ⟨hfits', hleading⟩ := hfits.split more
      rw [varint_eq, hs, if_pos hfits', hleading, List.drop_left]
  · split at h <;> cases h

theorem local_signed : Local signed := local_varint.bind fun _ => .pure _

theorem local_bytes : Local bytes := local_varint.bind local_raw

theorem local_text : Local text := by
  refine local_bytes.bind fun bytes => ?_
  cases textOfBytes? bytes with
  | none => exact .throw _
  | some text => exact .pure text

theorem local_times {read : Read α} (h : Local read) (count : Nat) : Local (times count read) := by
  induction count with
  | zero => exact .pure []
  | succ count ih => exact h.bind fun _ => ih.bind fun _ => .pure _

theorem local_sums (count last : Nat) : Local (sums count last) := by
  induction count generalizing last with
  | zero => exact .pure []
  | succ count ih => exact local_varint.bind fun _ => (ih _).bind fun _ => .pure _

theorem local_ascending : Local ascending := local_varint.bind fun count => local_sums count 0

/-- A checksum that is found right is that of the bytes accepted, and is what stands there. -/
theorem checksum_eq_true {r r' : Reader} (h : checksum r = (.ok true, r')) :
    r.rest = littleEndian 4 (Checksum.finish r.state).toNat ++ r'.rest ∧
      r'.position = r.position := by
  unfold checksum at h
  dsimp only at h
  split at h
  · cases h
  · next hlong =>
      obtain ⟨hright, rfl⟩ := Prod.mk.inj h
      have hvalue := beq_iff_eq.mp (Except.ok.inj hright)
      have hwidth : (r.rest.take 4).length = 4 := by
        have := List.length_take_le 4 r.rest
        omega
      have hbytes := littleEndian_ofLittleEndian (r.rest.take 4)
      rw [hwidth, hvalue] at hbytes
      exact ⟨by rw [hbytes, List.take_append_drop], rfl⟩

end Read

end Concordance.Wire
