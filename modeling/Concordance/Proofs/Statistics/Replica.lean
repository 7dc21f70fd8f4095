import Concordance.Proofs.Fallible
import Concordance.Proofs.Statistics.Blob
import Concordance.Proofs.Statistics.Message
import Concordance.Statistics.Replica

/-!
# What replicas add up

A replica that is sent the messages of records, one record after the other and each later than the
one before, accepts every one of them, and then has the sums of what the records say
(`Replica.applyBlobs_records`): the parts and the encoding of the messages do not show.
-/

namespace Concordance.Statistics

/-- A message that its blob gives back as it is. -/
structure Message.Sendable (m : Message) : Prop where
  words : m.InRange
  ascend : m.changes.Pairwise fun a b => compare a.term b.term = .lt

/-- The numbers of a record are words, and its changes are fewer than the numbers that parts have. -/
structure Record.Fits (record : Record) : Prop where
  timestamp : record.timestamp.InRange
  documents : Wire.IsInt64 record.documents
  changes : ∀ c ∈ record.changes, c.InRange
  count : record.changes.length < Wire.word32

instance (r : Record) : Decidable r.Fits :=
  decidable_of_iff (r.timestamp.InRange ∧ Wire.IsInt64 r.documents ∧
    (∀ c ∈ r.changes, c.InRange) ∧ r.changes.length < Wire.word32)
    ⟨fun h => ⟨h.1, h.2.1, h.2.2.1, h.2.2.2⟩,
      fun h => ⟨h.timestamp, h.documents, h.changes, h.count⟩⟩

/-- A record all of whose messages can be sent. -/
structure Record.Sendable (record : Record) : Prop where
  fits : record.Fits
  ascend : record.changes.Pairwise fun a b => compare a.term b.term = .lt

/-! ## Sums of changes -/

/-- By how much changes alter the document frequency of a term, all together. -/
def total (t : Term) (changes : List Change) : Int :=
  (changes.map fun c => if c.term = t then c.increment else 0).sum

theorem total_append (t : Term) (a b : List Change) : total t (a ++ b) = total t a + total t b := by
  unfold total
  rw [List.map_append, List.sum_append]

theorem total_flatMap (t : Term) (records : List Record) :
    total t (records.flatMap (·.changes)) = (records.map fun r => total t r.changes).sum := by
  induction records with
  | nil => rfl
  | cons record rest ih => rw [List.flatMap_cons, total_append, ih, List.map_cons, List.sum_cons]

theorem total_of_not_mem {t : Term} {changes : List Change} (h : ∀ c ∈ changes, c.term ≠ t) :
    total t changes = 0 := by
  have hzero : (changes.map fun c => if c.term = t then c.increment else 0) =
      List.replicate changes.length 0 := by
    rw [List.map_eq_replicate_iff]
    exact fun c hc => if_neg (h c hc)
  rw [total, hzero, List.sum_replicate_int, Int.mul_zero]

/-- Changes of different terms say of each term what its own change says. -/
theorem total_of_ascend {changes : List Change} {c : Change}
    (h : changes.Pairwise fun a b => compare a.term b.term = .lt) (hc : c ∈ changes) :
    total c.term changes = c.increment := by
  induction changes with
  | nil => cases hc
  | cons first rest ih =>
      obtain ⟨hfirst, hrest⟩ := List.pairwise_cons.mp h
      unfold total
      rw [List.map_cons, List.sum_cons]
      have hdiffer : ∀ {a b : Change}, compare a.term b.term = .lt → a.term ≠ b.term := by
        intro a b hlt heq
        rw [heq, Std.ReflOrd.compare_self] at hlt
        cases hlt
      rcases List.mem_cons.mp hc with rfl | hc
      · rw [if_pos rfl]
        have hothers := total_of_not_mem fun b hb => (hdiffer (hfirst b hb)).symm
        exact (congrArg _ hothers).trans (Int.add_zero _)
      · rw [if_neg (hdiffer (hfirst c hc))]
        exact (Int.zero_add _).trans (ih hrest hc)

namespace Replica

/-! ## Frequencies -/

/-- What a map has of a frequency: zeros are left out. -/
def entry (n : Int) : Option Int := if n = 0 then none else some n

/-- A map of what a function says. -/
def Tells (m : SortedMap Term Int) (f : Term → Int) : Prop := ∀ t, m.get? t = entry (f t)

theorem tells_empty : Tells ∅ fun _ => 0 := fun _ => rfl

theorem Tells.getD {m : SortedMap Term Int} {f : Term → Int} (h : Tells m f) (t : Term) :
    m.getD t 0 = f t := by
  rw [SortedMap.getD, h t, entry]
  split <;> simp [*]

/-- A change adds to the frequency of its term. -/
theorem Tells.addChange {m : SortedMap Term Int} {f : Term → Int} (h : Tells m f) (c : Change) :
    Tells (addChange m c) fun t => f t + if c.term = t then c.increment else 0 := by
  intro t
  unfold Replica.addChange
  dsimp only
  rw [h.getD]
  by_cases ht : t = c.term
  · subst ht
    rw [if_pos rfl, entry]
    split
    · rw [SortedMap.get?_erase, if_pos rfl]
    · rw [SortedMap.get?_insert, if_pos rfl]
  · rw [if_neg (Ne.symm ht), Int.add_zero, ← h t]
    split
    · rw [SortedMap.get?_erase, if_neg ht]
    · rw [SortedMap.get?_insert, if_neg ht]

theorem Tells.foldl {m : SortedMap Term Int} {f : Term → Int} (h : Tells m f)
    (changes : List Change) :
    Tells (changes.foldl Replica.addChange m) fun t => f t + total t changes := by
  induction changes generalizing m f with
  | nil =>
      intro t
      show m.get? t = entry (f t + 0)
      rw [Int.add_zero]
      exact h t
  | cons c rest ih =>
      intro t
      have hrest := ih (h.addChange c) t
      dsimp only at hrest
      rw [Int.add_assoc] at hrest
      exact hrest

/-! ## Messages in order -/

/-- Messages that a replica accepts one after the other: none is repeated or older than one before
it. -/
structure Accepts (r : Replica) (messages : List Message) : Prop where
  fresh : ∀ m ∈ messages, m.key ∉ r.seen ∧
    ∀ last, r.lastApplied = some last → m.timestamp.isBefore last = false
  steps : messages.Pairwise fun a b =>
    a.key ≠ b.key ∧ b.timestamp.isBefore a.timestamp = false

variable {r : Replica} {m : Message} {messages : List Message}

theorem Accepts.apply (h : Accepts r (m :: messages)) : r.apply m = .ok (true, r.accept m) := by
  obtain ⟨hnew, hlater⟩ := h.fresh m List.mem_cons_self
  unfold Replica.apply
  rw [if_neg hnew]
  split
  · next last hlast => rw [hlater last hlast, if_neg Bool.false_ne_true]
  · rfl

theorem Accepts.tail (h : Accepts r (m :: messages)) : Accepts (r.accept m) messages := by
  obtain ⟨hfirst, hrest⟩ := List.pairwise_cons.mp h.steps
  refine ⟨fun b hb => ?_, hrest⟩
  obtain ⟨hkey, hlater⟩ := hfirst b hb
  refine ⟨fun hseen => ?_, fun last hlast => ?_⟩
  · rcases List.mem_cons.mp hseen with heq | hseen
    · exact hkey heq.symm
    · split at hseen
      · exact (h.fresh b (List.mem_cons_of_mem _ hb)).1 hseen
      · cases hseen
  · cases hlast
    exact hlater

/-- Applies blobs one after the other; answers of each whether its message was new. -/
def applyBlobs (r : Replica) : List (List UInt8) → Except Error (List Bool × Replica)
  | [] => .ok ([], r)
  | blob :: rest => do
    let (new, r) ← r.applyBlob blob
    let (more, r) ← r.applyBlobs rest
    return (new :: more, r)

theorem applyBlob_encode (h : m.Sendable) (r : Replica) :
    r.applyBlob (Blob.encode m) = (r.apply m).mapError OutOfOrder.toError := by
  unfold Replica.applyBlob Blob.read
  rw [Blob.decode_encode h.words, Blob.canonical_of_ascend h.ascend]
  rfl

/-- Blobs of messages in order are all new, and their messages are accepted one after the other. -/
theorem applyBlobs_encode (hsend : ∀ m ∈ messages, m.Sendable) (h : Accepts r messages) :
    r.applyBlobs (messages.map Blob.encode) =
      .ok (messages.map fun _ => true, messages.foldl accept r) := by
  induction messages generalizing r with
  | nil => rfl
  | cons m rest ih =>
      obtain ⟨hm, hrest⟩ := List.forall_mem_cons.mp hsend
      rw [List.map_cons, applyBlobs, applyBlob_encode hm, h.apply]
      show (do
        let (more, r) ← (r.accept m).applyBlobs (rest.map Blob.encode)
        return (true :: more, r)) = _
      rw [ih hrest h.tail]
      rfl

theorem documents_foldl (r : Replica) (messages : List Message) :
    (messages.foldl accept r).documents = r.documents + (messages.map (·.documents)).sum := by
  induction messages generalizing r with
  | nil => exact (Int.add_zero _).symm
  | cons m rest ih =>
      rw [List.foldl_cons, ih, List.map_cons, List.sum_cons, ← Int.add_assoc]
      rfl

theorem frequencies_foldl (r : Replica) (messages : List Message) :
    (messages.foldl accept r).frequencies =
      (messages.flatMap (·.changes)).foldl addChange r.frequencies := by
  induction messages generalizing r with
  | nil => rfl
  | cons m rest ih =>
      rw [List.foldl_cons, ih, List.flatMap_cons, List.foldl_append]
      rfl

/-! ## Messages of records -/

/-- Records one later than the other. -/
abbrev Later (records : List Record) : Prop :=
  records.Pairwise fun a b => compare a.timestamp b.timestamp = .lt

variable {records : List Record} {origin : Origin} {encoding : Encoding} {maxEntries : Nat}

theorem isBefore_self (t : TimeStamp) : t.isBefore t = false := by
  unfold TimeStamp.isBefore
  rw [Std.ReflOrd.compare_self]
  rfl

theorem accepts_splitAll (h : Later records) :
    Accepts {} (Message.splitAll records origin encoding maxEntries) := by
  refine ⟨fun m _ => ⟨by simp, nofun⟩, List.pairwise_flatMap.mpr ⟨fun record _ => ?_, ?_⟩⟩
  · -- parts of one record have its timestamp and different numbers
    have hdivides := Message.split_divides record origin encoding maxEntries
    refine hdivides.numbered.imp_of_mem fun {a b} ha hb hlt => ⟨fun hkey => ?_, ?_⟩
    · have hpart := congrArg Message.Key.part hkey
      change a.part = b.part at hpart
      omega
    · rw [hdivides.timestamp a ha, hdivides.timestamp b hb]
      exact isBefore_self _
  · refine h.imp fun {a b} hlater x hx y hy => ?_
    have hxt := (Message.split_divides a origin encoding maxEntries).timestamp x hx
    have hyt := (Message.split_divides b origin encoding maxEntries).timestamp y hy
    refine ⟨fun hkey => ?_, ?_⟩
    · have htime := congrArg Message.Key.timestamp hkey
      change x.timestamp = y.timestamp at htime
      rw [← hxt, ← hyt, htime, Std.ReflOrd.compare_self] at hlater
      cases hlater
    · unfold TimeStamp.isBefore
      rw [hxt, hyt, Std.OrientedCmp.gt_of_lt hlater]
      rfl

theorem sendable_split {record : Record} (h : record.Sendable) (origin : Origin)
    (encoding : Encoding) (maxEntries : Nat) :
    ∀ m ∈ Message.split record origin encoding maxEntries, m.Sendable := by
  obtain ⟨parts, -, hflatten, hlength, hsplit⟩ :=
    Message.split_eq record origin encoding maxEntries
  intro m hm
  rw [hsplit] at hm
  obtain ⟨⟨changes, part⟩, hpart, rfl⟩ := List.mem_map.mp hm
  have hsublist : changes.Sublist record.changes := by
    rw [← hflatten]
    exact List.sublist_flatten_of_mem (List.fst_mem_of_mem_zipIdx hpart)
  have hlt := (List.mem_zipIdx hpart).2.1
  have hcount := hsublist.length_le
  have hwords : Wire.word32 < Wire.word64 := by decide
  have hlarge : 1 < Wire.word32 := by decide
  have hsmall := h.fits.count
  refine ⟨⟨h.fits.timestamp, ?_, ?_, ?_, fun c hc => h.fits.changes c (hsublist.mem hc)⟩,
    h.ascend.sublist hsublist⟩
  · show part < Wire.word32
    omega
  · show Wire.IsInt64 (if part = 0 then record.documents else 0)
    split
    · exact h.fits.documents
    · decide
  · show changes.length < Wire.word64
    omega

theorem sendable_splitAll (h : ∀ record ∈ records, record.Sendable) (origin : Origin)
    (encoding : Encoding) (maxEntries : Nat) :
    ∀ m ∈ Message.splitAll records origin encoding maxEntries, m.Sendable := by
  intro m hm
  obtain ⟨record, hrecord, hm⟩ := List.mem_flatMap.mp hm
  exact sendable_split (h record hrecord) origin encoding maxEntries m hm

/-- A replica accepts the messages of records, and has the sums of what the records say. -/
theorem applyBlobs_records (hlater : Later records) (hsend : ∀ r ∈ records, r.Sendable) :
    ∃ r : Replica,
      ({} : Replica).applyBlobs ((Message.splitAll records origin encoding maxEntries).map
        Blob.encode) =
        .ok ((Message.splitAll records origin encoding maxEntries).map fun _ => true, r) ∧
      r.documents = (records.map (·.documents)).sum ∧
      Tells r.frequencies fun t => (records.map fun r => total t r.changes).sum := by
  have hmessages := sendable_splitAll hsend origin encoding maxEntries
  refine ⟨_, applyBlobs_encode hmessages (accepts_splitAll hlater), ?_, fun t => ?_⟩
  · rw [documents_foldl, Message.documents_splitAll]
    exact Int.zero_add _
  · rw [frequencies_foldl, Message.changes_splitAll]
    dsimp only
    rw [← total_flatMap]
    have htells := tells_empty.foldl (records.flatMap (·.changes)) t
    dsimp only at htells
    rwa [Int.zero_add] at htells

end Replica

end Concordance.Statistics
