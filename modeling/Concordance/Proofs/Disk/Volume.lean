import Concordance.Disk.Volume
import Concordance.Proofs.SortedMap

/-!
# Work on volumes

What the calls on a volume do, in two forms. On a volume that refuses nothing every call succeeds
(`create_willing` and its like). On any volume a call `Leaves` what its success and its failure
leave: a failed call leaves the files alone, but for a write, which may have kept a first part.
-/

namespace Concordance

namespace Disk

variable {α β : Type}

/-! ## Running one piece of work after another -/

theorem run_bind (x : Disk α) (f : α → Disk β) (v : Volume) :
    (x >>= f).run v = ExceptT.bindCont f (x.run v).1 (x.run v).2 := rfl

theorem run_bind_of_ok {x : Disk α} {v v' : Volume} {a : α} (h : x.run v = (.ok a, v'))
    (f : α → Disk β) : (x >>= f).run v = (f a).run v' := by
  rw [run_bind, h]
  rfl

theorem run_bind_of_error {x : Disk α} {v v' : Volume} {e : Error} (h : x.run v = (.error e, v'))
    (f : α → Disk β) : (x >>= f).run v = (.error e, v') := by
  rw [run_bind, h]
  rfl

/-- Work that succeeds did so step by step. -/
theorem run_bind_eq_ok {x : Disk α} {f : α → Disk β} {v v' : Volume} {b : β}
    (h : (x >>= f).run v = (.ok b, v')) :
    ∃ a w, x.run v = (.ok a, w) ∧ (f a).run w = (.ok b, v') := by
  rcases hx : x.run v with ⟨e | a, w⟩
  · rw [run_bind_of_error hx] at h
    cases h
  · rw [run_bind_of_ok hx] at h
    exact ⟨a, w, rfl, h⟩

/-! ## The outcome of a call -/

/-- The plan that a call leaves. -/
def planAfter (call : DiskCall) (v : Volume) : List (DiskCall × Outcome) :=
  (Volume.takeOutcome call v.plan).2

theorem run_outcome (call : DiskCall) (v : Volume) :
    (outcome call).run v =
      (.ok (Volume.takeOutcome call v.plan).1, { v with plan := planAfter call v }) := rfl

/-- A call passes or fails, and changes nothing but the plan. -/
theorem run_pass (call : DiskCall) (v : Volume) :
    (pass call).run v = (.ok (), { v with plan := planAfter call v }) ∨
      ∃ e, (pass call).run v = (.error e, { v with plan := planAfter call v }) := by
  unfold pass
  rw [run_bind_of_ok (run_outcome call v)]
  cases (Volume.takeOutcome call v.plan).1 with
  | passes => exact .inl rfl
  | fails e => exact .inr ⟨e, rfl⟩
  | room n e => exact .inl rfl

/-- A call that is not planned to fail passes. -/
theorem run_pass_of_not_fails {v : Volume} {call : DiskCall}
    (h : ∀ e, (Volume.takeOutcome call v.plan).1 ≠ .fails e) :
    (pass call).run v = (.ok (), { v with plan := planAfter call v }) := by
  unfold pass
  rw [run_bind_of_ok (run_outcome call v)]
  cases houtcome : (Volume.takeOutcome call v.plan).1 with
  | passes => rfl
  | fails e => exact absurd houtcome (h e)
  | room n e => rfl

theorem run_pass_of_no_plan {v : Volume} (h : v.plan = []) (call : DiskCall) :
    (pass call).run v = (.ok (), v) := by
  rw [run_pass_of_not_fails (by rw [h]; nofun), planAfter, h]
  obtain ⟨place, files, folders, present, plan⟩ := v
  cases h
  rfl

end Disk

namespace Volume

/-- Nothing is refused: no failure is planned, and the files of a storage can be opened. -/
structure Willing (v : Volume) (names : List String) : Prop where
  plan : v.plan = []
  present : v.present = true
  accepts : ∀ name ∈ names, v.accepts name = true

variable {v : Volume} {names : List String}

theorem Willing.files (h : v.Willing names) (files : SortedMap String (List UInt8)) :
    ({ v with files } : Volume).Willing names :=
  ⟨h.plan, h.present, h.accepts⟩

theorem Willing.setContent (h : v.Willing names) (name : String) (bytes : List UInt8) :
    (v.setContent name bytes).Willing names :=
  h.files _

theorem get?_setContent (v : Volume) (name x : String) (bytes : List UInt8) :
    (v.setContent name bytes).files.get? x = if x = name then some bytes else v.files.get? x :=
  SortedMap.get?_insert _ _ _ _

@[simp] theorem contentOf_setContent (v : Volume) (name : String) (bytes : List UInt8) :
    (v.setContent name bytes).contentOf name = bytes := by
  rw [contentOf, SortedMap.getD, get?_setContent, if_pos rfl, Option.getD_some]

@[simp] theorem setContent_setContent (v : Volume) (name : String) (a b : List UInt8) :
    (v.setContent name a).setContent name b = v.setContent name b := by
  unfold setContent
  rw [SortedMap.insert_insert]

end Volume

namespace Disk

variable {v : Volume} {names : List String} {name : String}

/-! ## Calls on a volume that refuses nothing -/

theorem create_willing (h : v.Willing names) (hname : name ∈ names) :
    (create name).run v = (.ok (), v.setContent name []) := by
  unfold create
  rw [run_bind_of_ok (run_pass_of_no_plan h.plan _),
    run_bind_of_ok (show (get : Disk Volume).run v = (.ok v, v) from rfl),
    if_pos (h.accepts name hname)]
  rfl

theorem openAppend_willing (h : v.Willing names) (hname : name ∈ names) :
    (openAppend name).run v = (.ok (), v.setContent name (v.contentOf name)) := by
  unfold openAppend
  rw [run_bind_of_ok (run_pass_of_no_plan h.plan _),
    run_bind_of_ok (show (get : Disk Volume).run v = (.ok v, v) from rfl),
    if_pos (h.accepts name hname)]
  rfl

theorem write_willing (h : v.Willing names) (bytes : List UInt8) :
    (write name bytes).run v = (.ok (), v.setContent name (v.contentOf name ++ bytes)) := by
  unfold write
  rw [run_bind_of_ok (run_outcome .write v), planAfter, h.plan]
  obtain ⟨place, files, folders, present, plan⟩ := v
  cases h.plan
  rfl

theorem sync_willing (h : v.Willing names) : (sync name).run v = (.ok (), v) :=
  run_pass_of_no_plan h.plan _

theorem close_willing (h : v.Willing names) : (close name).run v = (.ok (), v) :=
  run_pass_of_no_plan h.plan _

theorem syncDirectory_willing (h : v.Willing names) : syncDirectory.run v = (.ok (), v) := by
  unfold syncDirectory
  rw [run_bind_of_ok (run_pass_of_no_plan h.plan _),
    run_bind_of_ok (show (get : Disk Volume).run v = (.ok v, v) from rfl), h.present]
  rfl

theorem run_exists? (v : Volume) (name : String) :
    (exists? name).run v = (.ok (v.files.get? name).isSome, v) := rfl

theorem rename_willing (h : v.Willing names) {old new : String} (hnew : new ∈ names)
    {bytes : List UInt8} (hold : v.files.get? old = some bytes) :
    (rename old new).run v =
      (.ok (), { v with files := (v.files.erase old).insert new bytes }) := by
  unfold rename
  rw [run_bind_of_ok (run_pass_of_no_plan h.plan _),
    run_bind_of_ok (show (get : Disk Volume).run v = (.ok v, v) from rfl), hold]
  dsimp only
  rw [if_pos (h.accepts new hnew)]
  rfl

/-- A file that is long enough is cut, unless the plan says that this fails. -/
theorem truncate_of_not_fails {bytes : List UInt8} {size : Nat}
    (hpass : ∀ e, (Volume.takeOutcome .truncate v.plan).1 ≠ .fails e)
    (hfile : v.files.get? name = some bytes) (hsize : size ≤ bytes.length) :
    (truncate name size).run v = (.ok (),
      ({ v with plan := planAfter .truncate v } : Volume).setContent name (bytes.take size)) := by
  unfold truncate
  rw [run_bind_of_ok (run_pass_of_not_fails hpass),
    run_bind_of_ok (show (get : Disk Volume).run _ = (.ok _, _) from rfl)]
  dsimp only
  rw [hfile]
  dsimp only
  cases v.place with
  | memory => rfl
  | directory path =>
      -- what a file is too short by is filled with zeros
      dsimp only
      rw [Volume.resize, Nat.sub_eq_zero_of_le hsize, List.replicate_zero, List.append_nil]
      rfl

theorem run_read {bytes : List UInt8} (hfile : v.files.get? name = some bytes) :
    (read name).run v = (.ok bytes, v) := by
  unfold read
  rw [run_bind_of_ok (show (get : Disk Volume).run v = (.ok v, v) from rfl), hfile]
  rfl

theorem read_eq_ok {bytes : List UInt8} {v' : Volume} (h : (read name).run v = (.ok bytes, v')) :
    v' = v ∧ v.files.get? name = some bytes := by
  unfold read at h
  rw [run_bind_of_ok (show (get : Disk Volume).run v = (.ok v, v) from rfl)] at h
  split at h <;> cases h
  next hfile => exact ⟨rfl, hfile⟩

/-! ## Calls on any volume -/

/-- The files of a storage by their names. -/
abbrev Files := SortedMap String (List UInt8)

/-- What work on files leaves when it succeeds, and when it fails, whatever the plan. -/
def Leaves {α : Type} (x : Disk α) (files : Files) (ok : α → Files → Prop) (failed : Files → Prop) :
    Prop :=
  ∀ v : Volume, v.files = files →
    (∃ a v', x.run v = (.ok a, v') ∧ ok a v'.files) ∨
      ∃ e v', x.run v = (.error e, v') ∧ failed v'.files

variable {α β : Type} {files : Files} {bytes : List UInt8}

theorem Leaves.bind {x : Disk α} {f : α → Disk β} {ok : α → Files → Prop} {ok' : β → Files → Prop}
    {failed : Files → Prop} (hx : Leaves x files ok failed)
    (hf : ∀ a files', ok a files' → Leaves (f a) files' ok' failed) :
    Leaves (x >>= f) files ok' failed := by
  intro v hv
  rcases hx v hv with ⟨a, v', hrun, hok⟩ | ⟨e, v', hrun, hfailed⟩
  · rcases hf a v'.files hok v' rfl with ⟨b, w, hrun', hok'⟩ | ⟨e, w, hrun', hfailed⟩
    · exact .inl ⟨b, w, (run_bind_of_ok hrun f).trans hrun', hok'⟩
    · exact .inr ⟨e, w, (run_bind_of_ok hrun f).trans hrun', hfailed⟩
  · exact .inr ⟨e, v', run_bind_of_error hrun f, hfailed⟩

theorem Leaves.mono {x : Disk α} {ok ok' : α → Files → Prop} {failed failed' : Files → Prop}
    (hx : Leaves x files ok failed) (hok : ∀ a f, ok a f → ok' a f)
    (hfailed : ∀ f, failed f → failed' f) : Leaves x files ok' failed' := by
  intro v hv
  rcases hx v hv with ⟨a, v', hrun, h⟩ | ⟨e, v', hrun, h⟩
  · exact .inl ⟨a, v', hrun, hok a _ h⟩
  · exact .inr ⟨e, v', hrun, hfailed _ h⟩

theorem leaves_pure (a : α) {ok : α → Files → Prop} {failed : Files → Prop} (h : ok a files) :
    Leaves (pure a) files ok failed := by
  intro v hv
  exact .inl ⟨a, v, rfl, hv ▸ h⟩

/-- A call that only passes or fails leaves the files alone. -/
theorem leaves_pass (call : DiskCall) :
    Leaves (pass call) files (fun _ f => f = files) (· = files) := by
  intro v hv
  rcases run_pass call v with hrun | ⟨e, hrun⟩
  · exact .inl ⟨(), _, hrun, hv⟩
  · exact .inr ⟨e, _, hrun, hv⟩

theorem leaves_get : Leaves (get : Disk Volume) files (fun v f => v.files = files ∧ f = files)
    (· = files) := by
  intro v hv
  exact .inl ⟨v, v, rfl, hv, hv⟩

theorem leaves_set {ok : Unit → Files → Prop} {failed : Files → Prop} {v : Volume}
    (h : ok () v.files) : Leaves (set v : Disk Unit) files ok failed := by
  intro _ _
  exact .inl ⟨(), v, rfl, h⟩

theorem leaves_throw {ok : α → Files → Prop} {failed : Files → Prop} (e : Error)
    (h : failed files) : Leaves (throw e : Disk α) files ok failed := by
  intro v hv
  exact .inr ⟨e, v, rfl, hv ▸ h⟩

theorem leaves_exists? (name : String) : Leaves (exists? name) files
    (fun there f => f = files ∧ there = (files.get? name).isSome) (· = files) := by
  intro v hv
  refine .inl ⟨_, v, run_exists? v name, hv, ?_⟩
  rw [hv]

theorem leaves_read {name : String} (hfile : files.get? name = some bytes) :
    Leaves (read name) files (fun content f => content = bytes ∧ f = files) (· = files) := by
  rintro v rfl
  exact .inl ⟨bytes, v, run_read hfile, rfl, rfl⟩

/-- A file that is opened for writing is emptied. -/
theorem leaves_create (name : String) :
    Leaves (create name) files (fun _ f => f = files.insert name []) (· = files) := by
  unfold create
  refine (leaves_pass .create).bind ?_
  rintro _ _ rfl
  refine leaves_get.bind ?_
  rintro v _ ⟨hv, rfl⟩
  split
  · refine leaves_set ?_
    rw [Volume.setContent, hv]
  · exact leaves_throw _ rfl

theorem leaves_openAppend (name : String) :
    Leaves (openAppend name) files (fun _ f => f = files.insert name (files.getD name []))
      (· = files) := by
  unfold openAppend
  refine (leaves_pass .append).bind ?_
  rintro _ _ rfl
  refine leaves_get.bind ?_
  rintro v _ ⟨hv, rfl⟩
  split
  · refine leaves_set ?_
    rw [Volume.setContent, Volume.contentOf, hv]
  · exact leaves_throw _ rfl

/-- A write that fails may have kept a first part of the bytes, but never all of them. -/
theorem leaves_write (name : String) (bytes : List UInt8) :
    Leaves (write name bytes) files
      (fun _ f => f = files.insert name (files.getD name [] ++ bytes))
      (fun f => f = files ∨
        ∃ kept < bytes.length, f = files.insert name (files.getD name [] ++ bytes.take kept)) := by
  intro v hv
  unfold write
  rw [run_bind_of_ok (run_outcome .write v)]
  subst hv
  cases (Volume.takeOutcome .write v.plan).1 with
  | passes => exact .inl ⟨(), _, rfl, rfl⟩
  | fails e => exact .inr ⟨e, _, rfl, .inl rfl⟩
  | room room e =>
      -- the write fails only if the bytes do not fit
      by_cases hroom : room < bytes.length
      · refine .inr ⟨e, { v with
          plan := planAfter .write v
          files := v.files.insert name (v.files.getD name [] ++ bytes.take room) }, ?_,
          .inr ⟨room, hroom, rfl⟩⟩
        dsimp only
        rw [if_pos hroom]
        rfl
      · refine .inl ⟨(), { v with
          plan := planAfter .write v
          files := v.files.insert name (v.files.getD name [] ++ bytes.take room) }, ?_, ?_⟩
        · dsimp only
          rw [if_neg hroom]
          rfl
        · rw [List.take_of_length_le (by omega)]

theorem leaves_sync (name : String) :
    Leaves (sync name) files (fun _ f => f = files) (· = files) :=
  leaves_pass .sync

theorem leaves_close (name : String) :
    Leaves (close name) files (fun _ f => f = files) (· = files) :=
  leaves_pass .close

theorem leaves_syncDirectory :
    Leaves syncDirectory files (fun _ f => f = files) (· = files) := by
  unfold syncDirectory
  refine (leaves_pass .syncDirectory).bind ?_
  rintro _ _ rfl
  refine leaves_get.bind ?_
  rintro v _ ⟨-, rfl⟩
  split
  · exact leaves_throw _ rfl
  · exact leaves_pure () rfl

/-- A file that is long enough is cut. -/
theorem leaves_truncate {name : String} {size : Nat} (hfile : files.get? name = some bytes)
    (hsize : size ≤ bytes.length) :
    Leaves (truncate name size) files (fun _ f => f = files.insert name (bytes.take size))
      (· = files) := by
  unfold truncate
  refine (leaves_pass .truncate).bind ?_
  rintro _ _ rfl
  refine leaves_get.bind ?_
  rintro v _ ⟨hv, rfl⟩
  rw [hv, hfile]
  dsimp only
  split
  · refine leaves_set ?_
    rw [Volume.setContent, hv]
  · refine leaves_set ?_
    rw [Volume.setContent, hv, Volume.resize, Nat.sub_eq_zero_of_le hsize, List.replicate_zero,
      List.append_nil]

theorem leaves_rename {old new : String} (hfile : files.get? old = some bytes) :
    Leaves (rename old new) files (fun _ f => f = (files.erase old).insert new bytes)
      (· = files) := by
  unfold rename
  refine (leaves_pass .rename).bind ?_
  rintro _ _ rfl
  refine leaves_get.bind ?_
  rintro v _ ⟨hv, rfl⟩
  rw [hv, hfile]
  dsimp only
  split
  · refine leaves_set ?_
    dsimp only
  · exact leaves_throw _ rfl

end Disk

end Concordance
