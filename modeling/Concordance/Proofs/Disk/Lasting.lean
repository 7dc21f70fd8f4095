import Concordance.Proofs.Disk.Volume

/-!
# Volumes that keep what they took

A volume is `Lasting` if it refuses nothing that comes after a write: files may fail to open, a write
may stop in the middle, and a cut may be refused, but what was written in full is synced and closed.
Every call leaves such a volume as one, so what any work leaves on it is put together from its calls
(`LastingLeaves.bind`), as it is on any volume.
-/

namespace Concordance

/-- No failure is planned for what comes after a write. -/
structure Volume.Lasting (v : Volume) : Prop where
  present : v.present = true
  plan : ∀ entry ∈ v.plan, entry.1 ∉ [DiskCall.sync, .close, .syncDirectory]

namespace Volume

/-- A call that the plan does not name passes. -/
theorem takeOutcome_of_absent {call : DiskCall} {plan : List (DiskCall × Outcome)}
    (h : ∀ entry ∈ plan, entry.1 ≠ call) : takeOutcome call plan = (.passes, plan) := by
  induction plan with
  | nil => rfl
  | cons entry rest ih =>
      obtain ⟨hentry, hrest⟩ := List.forall_mem_cons.mp h
      rw [takeOutcome, if_neg hentry, ih hrest]

/-- A call takes an entry off the plan and adds none. -/
theorem takeOutcome_subset (call : DiskCall) (plan : List (DiskCall × Outcome)) :
    (takeOutcome call plan).2 ⊆ plan := by
  induction plan with
  | nil => exact List.Subset.refl _
  | cons entry rest ih =>
      rw [takeOutcome]
      split
      · exact List.subset_cons_self entry rest
      · exact List.cons_subset_cons entry ih

variable {v : Volume}

theorem Lasting.files (h : v.Lasting) (files : SortedMap String (List UInt8)) :
    ({ v with files } : Volume).Lasting :=
  ⟨h.present, h.plan⟩

theorem Lasting.planAfter (h : v.Lasting) (call : DiskCall) :
    ({ v with plan := Disk.planAfter call v } : Volume).Lasting :=
  ⟨h.present, fun entry hentry => h.plan entry (takeOutcome_subset call v.plan hentry)⟩

end Volume

namespace Disk

variable {v v' : Volume} {α β : Type}

theorem run_pass_of_lasting (h : v.Lasting) {call : DiskCall}
    (hcall : call ∈ [DiskCall.sync, .close, .syncDirectory]) : (pass call).run v = (.ok (), v) := by
  have habsent : ∀ entry ∈ v.plan, entry.1 ≠ call := by
    rintro entry hentry rfl
    exact h.plan entry hentry hcall
  unfold pass
  rw [run_bind_of_ok (run_outcome call v), planAfter, Volume.takeOutcome_of_absent habsent]
  rfl

/-! ## Calls leave lasting volumes -/

/-- Work that leaves a lasting volume lasting. -/
def Lasts (x : Disk α) : Prop := ∀ v : Volume, v.Lasting → (x.run v).2.Lasting

theorem lasts_pure (a : α) : Lasts (pure a) := fun _ h => h

theorem Lasts.bind {x : Disk α} {f : α → Disk β} (hx : Lasts x) (hf : ∀ a, Lasts (f a)) :
    Lasts (x >>= f) := by
  intro v h
  have hfirst := hx v h
  rcases hrun : x.run v with ⟨_ | a, w⟩
  · rw [run_bind_of_error hrun]
    rwa [hrun] at hfirst
  · rw [run_bind_of_ok hrun]
    rw [hrun] at hfirst
    exact hf a w hfirst

theorem lasts_pass (call : DiskCall) : Lasts (pass call) := by
  intro v h
  rcases run_pass call v with hrun | ⟨e, hrun⟩ <;> rw [hrun] <;> exact h.planAfter call

/-- Work that looks at the volume after a call that may be refused. -/
theorem lasts_after_pass (call : DiskCall) {f : Volume → Disk α}
    (hf : ∀ v : Volume, v.Lasting → ((f v).run v).2.Lasting) :
    Lasts (pass call >>= fun _ => get >>= f) := by
  refine (lasts_pass call).bind fun _ v h => ?_
  rw [run_bind_of_ok (show (get : Disk Volume).run v = (.ok v, v) from rfl)]
  exact hf v h

theorem lasts_create (name : String) : Lasts (create name) := by
  refine lasts_after_pass .create fun v h => ?_
  split
  · exact h.files _
  · exact h

theorem lasts_openAppend (name : String) : Lasts (openAppend name) := by
  refine lasts_after_pass .append fun v h => ?_
  split
  · exact h.files _
  · exact h

theorem lasts_truncate (name : String) (size : Nat) : Lasts (truncate name size) := by
  refine lasts_after_pass .truncate fun v h => ?_
  split
  · exact h
  · split <;> exact h.files _

theorem lasts_write (name : String) (bytes : List UInt8) : Lasts (write name bytes) := by
  intro v h
  unfold write
  rw [run_bind_of_ok (run_outcome .write v)]
  cases (Volume.takeOutcome .write v.plan).1 with
  | passes => exact (h.planAfter .write).files _
  | fails e => exact h.planAfter .write
  | room room e =>
      dsimp only
      split <;> exact (h.planAfter .write).files _

theorem lasts_exists? (name : String) : Lasts (exists? name) := fun _ h => h

theorem lasts_read (name : String) : Lasts (read name) := by
  intro v h
  unfold read
  rw [run_bind_of_ok (show (get : Disk Volume).run v = (.ok v, v) from rfl)]
  split <;> exact h

/-! ## What work leaves on a lasting volume -/

/-- What work leaves on a lasting volume when it succeeds, and when it fails. -/
def LastingLeaves (x : Disk α) (files : Files) (ok : α → Files → Prop) (failed : Files → Prop) :
    Prop :=
  ∀ v : Volume, v.Lasting → v.files = files →
    (∃ a v', x.run v = (.ok a, v') ∧ v'.Lasting ∧ ok a v'.files) ∨
      ∃ e v', x.run v = (.error e, v') ∧ v'.Lasting ∧ failed v'.files

variable {files : Files} {ok : α → Files → Prop} {failed : Files → Prop}

/-- What work leaves on any volume it leaves on a lasting one. -/
theorem Leaves.lasting {x : Disk α} (hx : Leaves x files ok failed) (hlasts : Lasts x) :
    LastingLeaves x files ok failed := by
  intro v h hv
  have hlast := hlasts v h
  rcases hx v hv with ⟨a, v', hrun, hok⟩ | ⟨e, v', hrun, hfailed⟩
  · rw [hrun] at hlast
    exact .inl ⟨a, v', hrun, hlast, hok⟩
  · rw [hrun] at hlast
    exact .inr ⟨e, v', hrun, hlast, hfailed⟩

theorem LastingLeaves.bind {x : Disk α} {f : α → Disk β} {ok' : β → Files → Prop}
    (hx : LastingLeaves x files ok failed)
    (hf : ∀ a files', ok a files' → LastingLeaves (f a) files' ok' failed) :
    LastingLeaves (x >>= f) files ok' failed := by
  intro v h hv
  rcases hx v h hv with ⟨a, v', hrun, hlast, hok⟩ | ⟨e, v', hrun, hlast, hfailed⟩
  · rcases hf a v'.files hok v' hlast rfl with
      ⟨b, w, hrun', hlast', hok'⟩ | ⟨e, w, hrun', hlast', hfailed⟩
    · exact .inl ⟨b, w, (run_bind_of_ok hrun f).trans hrun', hlast', hok'⟩
    · exact .inr ⟨e, w, (run_bind_of_ok hrun f).trans hrun', hlast', hfailed⟩
  · exact .inr ⟨e, v', run_bind_of_error hrun f, hlast, hfailed⟩

theorem LastingLeaves.mono {x : Disk α} {ok' : α → Files → Prop} {failed' : Files → Prop}
    (hx : LastingLeaves x files ok failed) (hok : ∀ a f, ok a f → ok' a f)
    (hfailed : ∀ f, failed f → failed' f) : LastingLeaves x files ok' failed' := by
  intro v h hv
  rcases hx v h hv with ⟨a, v', hrun, hlast, hleft⟩ | ⟨e, v', hrun, hlast, hleft⟩
  · exact .inl ⟨a, v', hrun, hlast, hok a _ hleft⟩
  · exact .inr ⟨e, v', hrun, hlast, hfailed _ hleft⟩

theorem lastingLeaves_pure (a : α) (h : ok a files) : LastingLeaves (pure a) files ok failed :=
  (leaves_pure a h).lasting fun _ hv => hv

theorem lastingLeaves_sync (name : String) :
    LastingLeaves (sync name) files (fun _ f => f = files) failed := by
  intro v h hv
  exact .inl ⟨(), v, run_pass_of_lasting h (by decide), h, hv⟩

theorem lastingLeaves_close (name : String) :
    LastingLeaves (close name) files (fun _ f => f = files) failed := by
  intro v h hv
  exact .inl ⟨(), v, run_pass_of_lasting h (by decide), h, hv⟩

theorem lastingLeaves_syncDirectory :
    LastingLeaves syncDirectory files (fun _ f => f = files) failed := by
  intro v h hv
  refine .inl ⟨(), v, ?_, h, hv⟩
  unfold syncDirectory
  rw [run_bind_of_ok (run_pass_of_lasting h (by decide)),
    run_bind_of_ok (show (get : Disk Volume).run v = (.ok v, v) from rfl), h.present]
  rfl

end Disk

end Concordance
