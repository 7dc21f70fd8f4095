import Concordance.Proofs.Wire.Bytes
import Concordance.Proofs.Wire.Varint

/-!
# Streams are read back

A read `Takes` bytes off the front of its input and answers the value that was written there,
whatever stands behind them. Reads one behind another take their bytes one behind another, so a
stream of fields is read back field by field; its checksum is found right (`checksum_accepts`).
-/

namespace Concordance.Wire

variable {α β ε ε' : Type}

/-- A read takes bytes off the front of the input and answers a value. -/
def Takes (read : Decoding ε α) (bytes : List UInt8) (a : α) : Prop :=
  ∀ (r : Reader) (more : List UInt8), r.rest = bytes ++ more →
    read r = (.ok a, r.accept bytes more)

namespace Reader

theorem accept_accept (r : Reader) (a b rest rest' : List UInt8) :
    (r.accept a rest).accept b rest' = r.accept (a ++ b) rest' := by
  simp only [accept, Checksum.advance_append, List.length_append, Nat.add_assoc]

end Reader

/-- A read that succeeds is followed by the next one. -/
theorem bind_of_ok {x : Decoding ε α} {r r' : Reader} {a : α} (h : x r = (.ok a, r'))
    (f : α → Decoding ε β) : (x >>= f) r = f a r' := by
  show ExceptT.bindCont f (x r).1 (x r).2 = _
  rw [h]
  rfl

/-- A read that fails is the last one. -/
theorem bind_of_error {x : Decoding ε α} {r r' : Reader} {e : ε} (h : x r = (.error e, r'))
    (f : α → Decoding ε β) : (x >>= f) r = (.error e, r') := by
  show ExceptT.bindCont f (x r).1 (x r).2 = _
  rw [h]
  rfl

theorem adapt_of_ok {x : Decoding ε α} {r r' : Reader} {a : α} (f : ε → ε')
    (h : x r = (.ok a, r')) : ExceptT.adapt f x r = (.ok a, r') := by
  show (Except.mapError f (x r).1, (x r).2) = _
  rw [h]
  rfl

theorem adapt_of_error {x : Decoding ε α} {r r' : Reader} {e : ε} (f : ε → ε')
    (h : x r = (.error e, r')) : ExceptT.adapt f x r = (.error (f e), r') := by
  show (Except.mapError f (x r).1, (x r).2) = _
  rw [h]
  rfl

/-- A look at the reader leaves it as it is. -/
theorem bind_get (f : Reader → Decoding ε β) (r : Reader) : (get >>= f) r = f r r := rfl

namespace Takes

/-- What comes behind a read goes on with its answer, behind its bytes. -/
theorem followed {x : Decoding ε α} {bytes more : List UInt8} {a : α} (hx : Takes x bytes a)
    {r : Reader} (hrest : r.rest = bytes ++ more) (f : α → Decoding ε β) :
    (x >>= f) r = f a (r.accept bytes more) :=
  bind_of_ok (hx r more hrest) f

theorem pure (a : α) : Takes (pure a : Decoding ε α) [] a := by
  intro r more hrest
  rw [List.nil_append] at hrest
  rw [← hrest]
  rfl

theorem bind {x : Decoding ε α} {f : α → Decoding ε β} {first second : List UInt8} {a : α} {b : β}
    (hx : Takes x first a) (hf : Takes (f a) second b) : Takes (x >>= f) (first ++ second) b := by
  intro r more hrest
  have hfirst := hx r (second ++ more) (by rw [hrest, List.append_assoc])
  have hsecond := hf (r.accept first (second ++ more)) more rfl
  show ExceptT.bindCont f (x r).1 (x r).2 = _
  rw [hfirst, ← Reader.accept_accept r first second (second ++ more)]
  exact hsecond

theorem adapt {x : Decoding ε α} {bytes : List UInt8} {a : α} (hx : Takes x bytes a)
    (f : ε → ε') : Takes (ExceptT.adapt f x) bytes a := by
  intro r more hrest
  exact adapt_of_ok f (hx r more hrest)

/-- The last read of a computation. -/
theorem bind_pure {x : Decoding ε α} {bytes : List UInt8} {a : α} (hx : Takes x bytes a)
    (f : α → β) : Takes (x >>= fun a => Pure.pure (f a)) bytes (f a) := by
  have := hx.bind (f := fun a => Pure.pure (f a)) (.pure (f a))
  rwa [List.append_nil] at this

theorem of_eq {x : Decoding ε α} {bytes bytes' : List UInt8} {a : α} (hx : Takes x bytes a)
    (h : bytes' = bytes) : Takes x bytes' a :=
  h ▸ hx

end Takes

namespace Read

theorem takes_fixed {width n : Nat} (h : n < 256 ^ width) :
    Takes (fixed width) (littleEndian width n) n := by
  intro r more hrest
  have hlength := length_littleEndian width n
  unfold fixed
  dsimp only
  rw [hrest, List.take_left' hlength, List.drop_left' hlength, if_neg (by omega),
    ofLittleEndian_of_lt h]

theorem fixed_of_short {width : Nat} {r : Reader} (h : r.rest.length < width) :
    fixed width r = (.error .endOfInput, { r with rest := [] }) := by
  have hlength : (r.rest.take width).length < width := by
    rw [List.length_take]
    omega
  unfold fixed
  dsimp only
  rw [if_pos hlength]

theorem takes_raw (bytes : List UInt8) : Takes (raw bytes.length) bytes bytes := by
  intro r more hrest
  unfold raw
  dsimp only
  rw [hrest, List.take_left, List.drop_left, if_neg (Nat.lt_irrefl _)]

theorem takes_varint {n : Nat} (h : n < word64) : Takes varint (Varint.encode n) n := by
  intro r more hrest
  rw [varint_eq, hrest, if_pos (Varint.fits_encode_append h more), Varint.leading_encode_append,
    Varint.worth_encode, List.drop_left]

theorem takes_signed {n : Int} (h : Varint.zigzag n < word64) :
    Takes signed (Varint.encode (Varint.zigzag n)) n := by
  have hread := (takes_varint h).bind_pure Varint.unzigzag
  rw [Varint.unzigzag_zigzag] at hread
  exact hread

theorem takes_bytes {b : List UInt8} (h : b.length < word64) :
    Takes bytes (lengthPrefixed b) b :=
  (takes_varint h).bind (takes_raw b)

theorem takes_text {s : String} (h : (textBytes s).length < word64) :
    Takes text (encodeText s) s := by
  unfold text
  rw [← List.append_nil (encodeText s)]
  refine (takes_bytes h).bind ?_
  rw [textOfBytes?_textBytes]
  exact .pure s

/-- What was written member by member is read back member by member. -/
theorem takes_times {read : Read α} {encode : α → List UInt8} {l : List α}
    (h : ∀ a ∈ l, Takes read (encode a) a) : Takes (times l.length read) (l.flatMap encode) l := by
  induction l with
  | nil => exact .pure []
  | cons a rest ih =>
      obtain ⟨ha, hrest⟩ := List.forall_mem_cons.mp h
      exact ha.bind ((ih hrest).bind_pure (a :: ·))

theorem takes_sums {values : List Nat} {last : Nat} (hlast : last < word32)
    (h : ∀ v ∈ values, v < word32) :
    Takes (sums values.length last) ((gaps last values).flatMap Varint.encode) values := by
  induction values generalizing last with
  | nil => exact .pure []
  | cons value rest ih =>
      have hvalue := h value List.mem_cons_self
      -- gaps are remainders, so numbers need not ascend
      have hsum : (last + (value + word32 - last) % word32) % word32 = value := by
        rw [Nat.add_mod_mod, show last + (value + word32 - last) = value + word32 by omega,
          Nat.add_mod_right, Nat.mod_eq_of_lt hvalue]
      have hgap : (value + word32 - last) % word32 < word64 := by
        have := Nat.mod_lt (value + word32 - last) (show 0 < word32 by decide)
        have : word32 < word64 := by decide
        omega
      have hrest := ih hvalue fun v hv => h v (List.mem_cons_of_mem _ hv)
      have := (takes_varint hgap).bind (f := fun gap => do
        return (last + gap) % word32 :: (← sums rest.length ((last + gap) % word32)))
        (b := value :: rest) (by
          rw [hsum]
          exact hrest.bind_pure (value :: ·))
      exact this.of_eq (by rw [gaps, List.flatMap_cons])

/-- Numbers of 32 bits are read back, in whatever order they are. -/
theorem takes_ascending {values : List Nat} (hcount : values.length < word64)
    (h : ∀ v ∈ values, v < word32) : Takes ascending (encodeAscending values) values :=
  (takes_varint hcount).bind (takes_sums (by decide) h)

/-- The checksum behind what was accepted is right. -/
theorem checksum_accepts {r : Reader} {bytes more : List UInt8}
    (hstate : r.state = Checksum.advance Checksum.start bytes)
    (hrest : r.rest = littleEndian 4 (Checksum.crc32 bytes).toNat ++ more) :
    checksum r = (.ok true, { r with rest := more }) := by
  have hlength := length_littleEndian 4 (Checksum.crc32 bytes).toNat
  have hrange : (Checksum.crc32 bytes).toNat < 256 ^ 4 := (Checksum.crc32 bytes).toNat_lt
  unfold checksum
  dsimp only
  rw [hrest, List.take_left' hlength, List.drop_left' hlength, if_neg (by omega),
    ofLittleEndian_of_lt hrange, hstate]
  show (Except.ok ((Checksum.crc32 bytes).toNat == (Checksum.crc32 bytes).toNat), _) = _
  rw [beq_self_eq_true]

/-- What comes behind a right checksum goes on. -/
theorem checksum_followed {r : Reader} (bytes more : List UInt8)
    (hstate : r.state = Checksum.advance Checksum.start bytes)
    (hrest : r.rest = littleEndian 4 (Checksum.crc32 bytes).toNat ++ more)
    (f : ReadFault → ε) (g : Bool → Decoding ε β) :
    (ExceptT.adapt f checksum >>= g) r = g true { r with rest := more } :=
  bind_of_ok (adapt_of_ok f (checksum_accepts hstate hrest)) g

end Read

end Concordance.Wire
