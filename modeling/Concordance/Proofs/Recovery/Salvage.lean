import Concordance.Proofs.Recovery.Ledger
import Concordance.Proofs.Wire.Checksum

/-!
# What is saved of a damaged journal

The file of a journal may hold any bytes. Opening keeps the longest beginning of them that consists
of intact frames (`Salvaged`), and nothing else: opening again finds the same, and what is appended
then stands behind it (`Journal.open_salvages`).

A changed byte is found wherever it stands in a frame, but for the length that the frame announces:
the mark, the record and the checksum are all bytes of a string that ends with its checksum, and such
strings do not differ in a single byte (`CommitRecord.unframe_changed`). So a journal with one damaged
frame is cut in front of that frame.
-/

namespace Concordance

open Wire (word32)

namespace CommitRecord

variable {content bytes payload frame kept front behind : List UInt8} {r : CommitRecord}
  {records before : List CommitRecord} {byte : UInt8} {i : Nat}

/-! ## The longest intact beginning -/

/-- What is saved of some bytes: the commits of the longest beginning that consists of intact
frames. -/
structure Salvaged (content : List UInt8) (records : List CommitRecord) (kept : List UInt8) :
    Prop where
  framed : Framed records kept
  starts : kept <+: content
  longest : ∀ others bytes, Framed others bytes → bytes <+: content →
    others <+: records ∧ bytes <+: kept

/-- The scan finds what can be saved. -/
theorem salvaged_scan (content : List UInt8) :
    Salvaged content (scan content).1 (content.take (scan content).2) where
  framed := framed_scan content
  starts := List.take_prefix _ content
  longest := by
    rintro others bytes hframed ⟨behind, rfl⟩
    rw [hframed.scanned behind, List.take_length_add_append]
    exact ⟨List.prefix_append others _, List.prefix_append bytes _⟩

/-- There is one answer to what can be saved. -/
theorem Salvaged.unique (h : Salvaged content records kept) {others : List CommitRecord}
    (h' : Salvaged content others bytes) : others = records ∧ bytes = kept := by
  obtain ⟨hrecords, hkept⟩ := h.longest others bytes h'.framed h'.starts
  obtain ⟨hothers, hbytes⟩ := h'.longest records kept h.framed h.starts
  exact ⟨hrecords.eq_of_length_le hothers.length_le, hkept.eq_of_length_le hbytes.length_le⟩

/-- Where no frame starts behind some frames, these are what can be saved. -/
theorem salvaged_of_unframe_error (hfront : Framed before front) {fault : FrameFault}
    (h : unframe behind = .error fault) : Salvaged (front ++ behind) before front := by
  have hsalvaged := salvaged_scan (front ++ behind)
  rw [hfront.scanned behind, scan_of_unframe_error h, List.append_nil, Nat.add_zero,
    List.take_left] at hsalvaged
  exact hsalvaged

/-! ## Changed bytes -/

/-- The length that bytes announce where a frame has the length of its record. -/
def announced (bytes : List UInt8) : Nat := Wire.ofLittleEndian ((bytes.drop 4).take 4)

theorem announced_frameOf (h : payload.length < word32) (behind : List UInt8) :
    announced (frameOf payload ++ behind) = payload.length := by
  have hmark : (Wire.littleEndian 4 mark).length = 4 := Wire.length_littleEndian 4 mark
  have hlength := Wire.length_littleEndian 4 payload.length
  unfold announced frameOf Wire.withChecksum
  simp only [List.append_assoc]
  rw [List.drop_left' hmark, List.take_left' hlength,
    Wire.ofLittleEndian_of_lt (Wire.lt_word32_iff.mp h)]

/-- Other bytes of a frame say nothing about the length. -/
theorem announced_set (hplace : i < 4 ∨ 8 ≤ i) : announced (bytes.set i byte) = announced bytes := by
  have hsame : ((bytes.set i byte).drop 4).take 4 = (bytes.drop 4).take 4 := by
    apply List.ext_getElem?
    intro k
    by_cases hk : k < 4
    · rw [List.getElem?_take_of_lt hk, List.getElem?_take_of_lt hk, List.getElem?_drop,
        List.getElem?_drop, List.getElem?_set_ne (by omega)]
    · rw [List.getElem?_eq_none, List.getElem?_eq_none]
      · exact Nat.le_trans (List.length_take_le 4 _) (by omega)
      · exact Nat.le_trans (List.length_take_le 4 _) (by omega)
  rw [announced, hsame, announced]

/-- A frame with a changed byte that is not one of the announced length is no frame, whatever stands
behind it. -/
theorem unframe_changed (hframe : r.frame? = some frame) (hi : i < frame.length)
    (hplace : i < 4 ∨ 8 ≤ i) (hchanged : byte ≠ frame[i]) (behind : List UInt8) :
    ∃ fault, unframe (frame.set i byte ++ behind) = .error fault := by
  obtain ⟨payload, hshort, rfl⟩ : ∃ payload, payload.length < word32 ∧ frame = frameOf payload := by
    unfold frame? at hframe
    dsimp only at hframe
    split at hframe
    · next hshort =>
        cases hframe
        exact ⟨_, hshort, rfl⟩
    · cases hframe
  rw [Fallible.exists_error_iff]
  rintro ⟨⟨r', behind'⟩, hread⟩
  obtain ⟨_, ⟨payload', hshort', -, rfl⟩, heq⟩ := unframe_eq_ok_iff.mp hread
  -- both frames announce the same length, so they have the same one
  have hlength : payload'.length = payload.length := by
    rw [← announced_frameOf hshort' behind', ← heq, ← List.set_append_left _ _ hi,
      announced_set hplace, announced_frameOf hshort]
  have hsame : (frameOf payload).set i byte = frameOf payload' := by
    refine (List.append_inj heq ?_).1
    rw [List.length_set, length_frameOf, length_frameOf, hlength]
  -- so they are strings with their checksums that differ in one byte only
  rw [List.set_eq_take_append_cons_drop, if_pos hi] at hsame
  have hsplit : frameOf payload = (frameOf payload).take i ++
      (frameOf payload)[i] :: (frameOf payload).drop (i + 1) := by
    rw [← List.drop_eq_getElem_cons hi, List.take_append_drop]
  exact hchanged (Wire.eq_of_withChecksum_eq hsame.symm hsplit)

end CommitRecord

namespace Journal

open CommitRecord (Framed Journaled Salvaged)

variable {content bytes : List UInt8} {j j' : Journal} {v v' : Volume} {more : List CommitRecord}

/-! ## Appending to what was saved -/

/-- Appends of commits one after the other, each of which succeeds. -/
inductive Appends : Journal → Volume → List CommitRecord → Journal → Volume → Prop
  | nil {j : Journal} {v : Volume} : Appends j v [] j v
  | cons {j j₁ j₂ : Journal} {v v₁ v₂ : Volume} {r : CommitRecord} {more : List CommitRecord} :
    j.append r v = (.ok (), j₁, v₁) → Appends j₁ v₁ more j₂ v₂ → Appends j v (r :: more) j₂ v₂

/-- Frames of appended commits stand one behind the other at the end of the file. -/
theorem Appends.follow (h : Appends j v more j' v') (hmore : ∀ r ∈ more, r.InRange)
    (hclean : j.needsRollback = false) (hsize : bytes.length ≤ j.size)
    (hfile : v.files.get? journalFile = some bytes) :
    ∃ frames, Journaled more frames ∧ v'.files.get? journalFile = some (bytes ++ frames) := by
  induction h generalizing bytes with
  | nil => exact ⟨[], .nil, by rw [hfile, List.append_nil]⟩
  | @cons j j₁ j₂ v v₁ v₂ r more hrun _ ih =>
      obtain ⟨hr, hrest⟩ := List.forall_mem_cons.mp hmore
      obtain ⟨frame, hframe⟩ : ∃ frame, r.frame? = some frame := by
        cases hframe : r.frame? with
        | none =>
            rw [append_of_frame?_eq_none hframe] at hrun
            cases hrun
        | some frame => exact ⟨frame, rfl⟩
      have hintact : Intact bytes j bytes :=
        ⟨fun _ => ⟨rfl, hsize⟩, fun hspoilt => by rw [hclean] at hspoilt; cases hspoilt⟩
      obtain ⟨content, hfiles, hclean₁, hintact₁⟩ :=
        append_leaves hintact hfile hframe hrun (fun hfailed => absurd rfl hfailed)
      obtain ⟨rfl, hsize₁⟩ := hintact₁.clean hclean₁
      have hfile₁ : v₁.files.get? journalFile = some (bytes ++ frame) := by
        rw [hfiles, SortedMap.get?_insert, if_pos rfl]
      obtain ⟨frames, hframes, hfile₂⟩ := ih hrest hclean₁ hsize₁ hfile₁
      exact ⟨frame ++ frames, .cons hr hframe hframes, by rw [hfile₂, List.append_assoc]⟩

/-- Where nothing is refused, commits that fit in frames can be appended. -/
theorem appends_of_willing (h : v.Willing [journalFile]) (hclean : j.needsRollback = false)
    (hmore : ∀ r ∈ more, ∃ frame, r.frame? = some frame) : ∃ j' v', Appends j v more j' v' := by
  induction more generalizing j v with
  | nil => exact ⟨j, v, .nil⟩
  | cons r more ih =>
      obtain ⟨⟨frame, hframe⟩, hrest⟩ := List.forall_mem_cons.mp hmore
      obtain ⟨v₁, happend, hwilling⟩ := append_willing h (by simp) hclean hframe
      obtain ⟨j', v', happends⟩ := ih hwilling
        (show ({ j with size := j.size + frame.length } : Journal).needsRollback = false from hclean)
        hrest
      exact ⟨j', v', .cons happend happends⟩

/-- Opening a journal whose file holds any bytes, where cutting it does not fail: what can be saved is
answered and left in the file. Opening again answers the same and changes nothing, and commits that
are appended then follow; where nothing is refused, they can be appended. If a frame behind the frames
of some commits has one byte changed, which may be any but those of the announced length, these
commits are what is answered. -/
theorem open_salvages (hfile : v.files.get? journalFile = some content)
    (hpass : ∀ e, (Volume.takeOutcome .truncate v.plan).1 ≠ .fails e) :
    ∃ records kept v', Salvaged content records kept ∧
      Journal.open.run v = (.ok ({ size := kept.length }, records), v') ∧
      v'.files = v.files.insert journalFile kept ∧
      Journal.open.run v' = (.ok ({ size := kept.length }, records), v') ∧
      (∀ more j w, (∀ r ∈ more, r.InRange) → Appends { size := kept.length } v' more j w →
        ∃ frames, Journaled more frames ∧
          w.files.get? journalFile = some (kept ++ frames) ∧
          Journal.open.run w =
            (.ok ({ size := (kept ++ frames).length }, records ++ more), w)) ∧
      (v.Willing [journalFile] → ∀ more : List CommitRecord,
        (∀ r ∈ more, ∃ frame, r.frame? = some frame) →
        ∃ j w, Appends { size := kept.length } v' more j w) ∧
      ∀ before front (r : CommitRecord) frame behind i byte, Journaled before front →
        r.frame? = some frame → (hi : i < frame.length) → i < 4 ∨ 8 ≤ i → byte ≠ frame[i] →
        content = front ++ frame.set i byte ++ behind → records = before ∧ kept = front := by
  have hsalvaged := CommitRecord.salvaged_scan content
  obtain ⟨v', hopen, hfiles, hwilling⟩ := open_cuts hfile hpass
  have hkept : (content.take (CommitRecord.scan content).2).length =
      (CommitRecord.scan content).2 :=
    List.length_take_of_le (CommitRecord.size_scan_le content)
  have hfile' : v'.files.get? journalFile =
      some (content.take (CommitRecord.scan content).2) := by
    rw [hfiles, SortedMap.get?_insert, if_pos rfl]
  refine ⟨_, _, v', hsalvaged, by rw [hkept]; exact hopen, hfiles,
    open_of_scanned hfile' hsalvaged.framed.scanned, ?_,
    fun h more hmore => appends_of_willing (hwilling _ h) rfl hmore, ?_⟩
  · intro more j w hmore happends
    obtain ⟨frames, hframes, hfile₂⟩ := happends.follow hmore rfl (Nat.le_refl _) hfile'
    have hscanned : CommitRecord.Scanned ((CommitRecord.scan content).1 ++ more)
        (content.take (CommitRecord.scan content).2 ++ frames) :=
      hsalvaged.framed.scanned.trans hframes.framed.scanned
    exact ⟨frames, hframes, hfile₂, open_of_scanned hfile₂ hscanned⟩
  · rintro before front r frame behind i byte hfront hframe hi hplace hchanged rfl
    obtain ⟨fault, hfault⟩ := CommitRecord.unframe_changed hframe hi hplace hchanged behind
    rw [List.append_assoc] at hsalvaged ⊢
    exact (CommitRecord.salvaged_of_unframe_error hfront.framed hfault).unique hsalvaged

/-- The frame of a commit that deletes a document. -/
def deletionFrame (generation : Nat) : List UInt8 :=
  CommitRecord.frameOf (CommitRecord.codec.encode (Ledger.deletion generation))

/-- A volume in memory whose journal has three frames, with a byte of the second one's record
changed. -/
def damaged : Volume :=
  { Volume.memory with
    files := SortedMap.insert ∅ journalFile
      (deletionFrame 1 ++ (deletionFrame 2).set 20 0xFF ++ deletionFrame 3) }

theorem open_salvages_damaged :
    ∃ (v w : Volume) (j j' : Journal),
      (Ledger.deletion 1).frame? = some (deletionFrame 1) ∧
      (Ledger.deletion 2).frame? = some (deletionFrame 2) ∧
      (∀ e, (Volume.takeOutcome .truncate damaged.plan).1 ≠ .fails e) ∧
      Journal.open.run damaged =
        (.ok ({ size := (deletionFrame 1).length }, [Ledger.deletion 1]), v) ∧
      v.files.get? journalFile = some (deletionFrame 1) ∧
      Appends { size := (deletionFrame 1).length } v [Ledger.deletion 4] j w ∧
      Journal.open.run w = (.ok (j', [Ledger.deletion 1, Ledger.deletion 4]), w) := by
  have hframe₁ : (Ledger.deletion 1).frame? = some (deletionFrame 1) :=
    CommitRecord.frame?_of_short (by decide +kernel)
  have hframe₂ : (Ledger.deletion 2).frame? = some (deletionFrame 2) :=
    CommitRecord.frame?_of_short (by decide +kernel)
  have hframe₄ : (Ledger.deletion 4).frame? = some (deletionFrame 4) :=
    CommitRecord.frame?_of_short (by decide +kernel)
  have hwilling : damaged.Willing [journalFile] :=
    ⟨rfl, rfl, by simp [damaged, Volume.accepts, Volume.memory]⟩
  have hpass : ∀ e, (Volume.takeOutcome .truncate damaged.plan).1 ≠ .fails e := by
    intro e hfails
    rw [hwilling.plan] at hfails
    cases hfails
  have hfile : damaged.files.get? journalFile =
      some (deletionFrame 1 ++ (deletionFrame 2).set 20 0xFF ++ deletionFrame 3) := by
    rw [damaged, SortedMap.get?_insert, if_pos rfl]
  obtain ⟨records, kept, v, -, hopen, hfiles, -, hfollow, happends, hchanged⟩ :=
    open_salvages hfile hpass
  have hin : ∀ n ∈ [1, 4], (Ledger.deletion n).InRange := by decide
  have hjournaled : Journaled [Ledger.deletion 1] (deletionFrame 1) := by
    simpa using Journaled.cons (hin 1 (by simp)) hframe₁ .nil
  obtain ⟨hrecords, hkept⟩ := hchanged _ _ (Ledger.deletion 2) (deletionFrame 2) (deletionFrame 3)
    20 0xFF hjournaled hframe₂ (by decide +kernel) (.inr (by omega)) (by decide +kernel) rfl
  subst hrecords hkept
  obtain ⟨j, w, happend⟩ := happends hwilling [Ledger.deletion 4] (by simpa using ⟨_, hframe₄⟩)
  obtain ⟨frames, -, -, hagain⟩ := hfollow [Ledger.deletion 4] j w
    (by simpa using hin 4 (by simp)) happend
  exact ⟨v, w, j, _, hframe₁, hframe₂, hpass, hopen,
    by rw [hfiles, SortedMap.get?_insert, if_pos rfl], happend, hagain⟩

end Journal

end Concordance
