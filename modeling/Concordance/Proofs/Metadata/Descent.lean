import Concordance.Metadata.Migration
import Concordance.Proofs.Fallible
import Mathlib.Data.List.Nodup

/-!
# Where the values of a migration come from

Alterations work on a list of columns by name: each is refused by columns that it does not suit
(`IsRefused`), and else it leaves others (`onColumns`). The values of a column that is left come
from the column that its name leads to, back through the list of alterations (`origin`), or are
zeros if it was added or cleared on the way. A migration runs the alterations on a layout, in which
columns remember places in the old record; `foldlM_run_eq_ok` says that it remembers the right ones.
-/

namespace Concordance.Alteration

/-- An alteration that columns do not suit. -/
def IsRefused (columns : List Column) : Alteration → Prop
  | add name _ => ∃ c ∈ columns, c.name = name
  | rename old new => (∃ c ∈ columns, c.name = new) ∨ ∀ c ∈ columns, c.name ≠ old
  | remove name | retype name _ | clear name => ∀ c ∈ columns, c.name ≠ name

/-- The columns that an alteration leaves. -/
def onColumns (columns : List Column) : Alteration → List Column
  | add name type => columns ++ [⟨name, type, none⟩]
  | remove name => columns.filter (·.name ≠ name)
  | rename old new => columns.map fun c => if c.name = old then { c with name := new } else c
  | retype name type => columns.map fun c => if c.name = name then { c with type } else c
  | clear _ => columns

/-- The column before an alteration that the values of a column after it come from. -/
def source : Alteration → String → Option String
  | add new _, name => if name = new then none else some name
  | remove _, name => some name
  | rename old new, name => if name = new then some old else some name
  | retype _ _, name => some name
  | clear cleared, name => if name = cleared then none else some name

/-- The column before a list of alterations that the values of a column after it come from; nothing
if they are zeros. -/
def origin (name : String) : List Alteration → Option String
  | [] => some name
  | a :: rest => (origin name rest).bind a.source

/-! ## One alteration -/

/-- The name of a column of a layout. -/
def nameOf (d : Descent) : String := d.column.name

variable {layout layout' : List Descent} {a : Alteration} {name : String} {index : Nat}

theorem nameOf_ne_of_nodup {d : Descent} (h : ((d :: layout).map nameOf).Nodup)
    {e : Descent} (he : e ∈ layout) : nameOf e ≠ nameOf d := fun heq =>
  (List.nodup_cons.mp h).1 (List.mem_map.mpr ⟨e, he, heq⟩)

/-- Of columns with distinct names, only the one that is found changes. -/
theorem modify_findIdx? (h : (layout.map nameOf).Nodup)
    (hindex : layout.findIdx? (nameOf · == name) = some index) (change : Descent → Descent) :
    layout.modify index change = layout.map fun d => if nameOf d = name then change d else d := by
  induction layout generalizing index with
  | nil => simp at hindex
  | cons d rest ih =>
      rw [List.findIdx?_cons] at hindex
      by_cases hname : nameOf d = name
      · have hothers : rest.map (fun e => if nameOf e = name then change e else e) = rest :=
          (List.map_congr_left fun e he => if_neg (hname ▸ nameOf_ne_of_nodup h he)).trans
            (List.map_id' rest)
        rw [if_pos (by simpa using hname)] at hindex
        cases hindex
        rw [List.map_cons, if_pos hname, hothers]
        rfl
      · rw [if_neg (by simpa using hname)] at hindex
        obtain ⟨i, hi, rfl⟩ := Option.map_eq_some_iff.mp hindex
        rw [List.map_cons, if_neg hname, ← ih (List.nodup_cons.mp h).2 hi]
        rfl

/-- Of columns with distinct names, only the one that is found is erased. -/
theorem eraseIdx_findIdx? (h : (layout.map nameOf).Nodup)
    (hindex : layout.findIdx? (nameOf · == name) = some index) :
    layout.eraseIdx index = layout.filter (nameOf · ≠ name) := by
  induction layout generalizing index with
  | nil => simp at hindex
  | cons d rest ih =>
      rw [List.findIdx?_cons] at hindex
      by_cases hname : nameOf d = name
      · have hothers : rest.filter (nameOf · ≠ name) = rest :=
          List.filter_eq_self.mpr fun e he => by
            simpa using hname ▸ nameOf_ne_of_nodup h he
        rw [if_pos (by simpa using hname)] at hindex
        cases hindex
        rw [List.filter_cons_of_neg (by simpa using hname), hothers]
        rfl
      · rw [if_neg (by simpa using hname)] at hindex
        obtain ⟨i, hi, rfl⟩ := Option.map_eq_some_iff.mp hindex
        rw [List.filter_cons_of_pos (by simpa using hname), ← ih (List.nodup_cons.mp h).2 hi]
        rfl

/-- The columns of a layout. -/
abbrev columnsOf (layout : List Descent) : List Column := layout.map (·.column)

theorem findIdx?_eq_none_iff :
    layout.findIdx? (nameOf · == name) = none ↔ ∀ c ∈ columnsOf layout, c.name ≠ name := by
  simp [nameOf]

theorem checkFresh_eq_ok :
    checkFresh layout name = .ok () ↔ ∀ c ∈ columnsOf layout, c.name ≠ name := by
  unfold checkFresh
  split
  · next hused => simpa using hused
  · next hfresh => simpa using hfresh

theorem changeColumn_eq_ok (h : (layout.map nameOf).Nodup) {change : Descent → Descent} :
    changeColumn layout name change = .ok layout' ↔
      (¬ ∀ c ∈ columnsOf layout, c.name ≠ name) ∧
        layout' = layout.map fun d => if nameOf d = name then change d else d := by
  rw [← findIdx?_eq_none_iff]
  unfold changeColumn
  split
  · next index hindex =>
      change layout.findIdx? (nameOf · == name) = some index at hindex
      simp [hindex, modify_findIdx? h hindex, eq_comm]
  · next hindex =>
      change layout.findIdx? (nameOf · == name) = none at hindex
      simp [hindex]

/-- What a change of a layout is for its columns. -/
theorem columnsOf_change {change : Descent → Descent} {onColumn : Column → Column}
    (h : ∀ d, (change d).column = onColumn d.column) :
    columnsOf (layout.map fun d => if nameOf d = name then change d else d) =
      (columnsOf layout).map fun c => if c.name = name then onColumn c else c := by
  rw [columnsOf, columnsOf, List.map_map, List.map_map]
  refine List.map_congr_left fun d _ => ?_
  by_cases hname : d.column.name = name
  · simp [nameOf, hname, h]
  · simp [nameOf, hname]

/-- A column of a layout after an alteration has its values from where a column before it has them,
or has none. -/
def Follows (layout : List Descent) (d : Descent) : Option String → Prop
  | none => d.source = none
  | some old => ∃ e ∈ layout, nameOf e = old ∧ d.source = e.source

/-- A column that an alteration leaves alone has its own values. -/
theorem Follows.self {d : Descent} (hd : d ∈ layout) : Follows layout d (some (nameOf d)) :=
  ⟨d, hd, rfl, rfl⟩

/-- Where the values of the columns come from when one of them is changed. -/
theorem Follows.of_change {change : Descent → Descent} {sourceOf : String → Option String}
    (hchanged : ∀ e ∈ layout, nameOf e = name →
      Follows layout (change e) (sourceOf (nameOf (change e))))
    (hkept : ∀ e ∈ layout, nameOf e ≠ name → sourceOf (nameOf e) = some (nameOf e)) :
    ∀ d ∈ layout.map (fun d => if nameOf d = name then change d else d),
      Follows layout d (sourceOf (nameOf d)) := by
  intro d hd
  obtain ⟨e, he, rfl⟩ := List.mem_map.mp hd
  by_cases hname : nameOf e = name
  · rw [if_pos hname]
    exact hchanged e he hname
  · rw [if_neg hname, hkept e he hname]
    exact .self he

theorem map_nameOf (layout : List Descent) :
    layout.map nameOf = (columnsOf layout).map (·.name) := by
  rw [List.map_map]
  rfl

/-- What an alteration does to a layout with distinct names. -/
theorem run_eq_ok (h : (layout.map nameOf).Nodup) (hrun : run layout a = .ok layout') :
    ¬ a.IsRefused (columnsOf layout) ∧ columnsOf layout' = a.onColumns (columnsOf layout) ∧
      ∀ d ∈ layout', Follows layout d (a.source (nameOf d)) := by
  cases a with
  | add name type =>
      obtain ⟨⟨⟩, hfresh, hrun⟩ := Fallible.bind_eq_ok.mp hrun
      cases hrun
      rw [checkFresh_eq_ok] at hfresh
      refine ⟨fun ⟨c, hc, hname⟩ => hfresh c hc hname, by simp [onColumns, columnsOf], fun d hd => ?_⟩
      rcases List.mem_append.mp hd with hd | hd
      · rw [source, if_neg (show nameOf d ≠ name from hfresh _ (List.mem_map_of_mem hd))]
        exact .self hd
      · obtain rfl := List.mem_singleton.mp hd
        change Follows layout _ ((add name type).source name)
        rw [source, if_pos rfl]
        rfl
  | remove name =>
      simp only [run] at hrun
      split at hrun
      · next index hindex =>
          cases hrun
          rw [eraseIdx_findIdx? h hindex]
          refine ⟨fun hnone => ?_, ?_, fun d hd => .self (List.mem_of_mem_filter hd)⟩
          · cases hindex.symm.trans (findIdx?_eq_none_iff.mpr hnone)
          · rw [onColumns, columnsOf, columnsOf, List.filter_map]
            rfl
      · cases hrun
  | rename old new =>
      obtain ⟨⟨⟩, hfresh, hrun⟩ := Fallible.bind_eq_ok.mp hrun
      rw [checkFresh_eq_ok] at hfresh
      obtain ⟨hknown, rfl⟩ := (changeColumn_eq_ok h).mp hrun
      refine ⟨?_, columnsOf_change fun _ => rfl, .of_change (fun e he hname => ?_) fun e he _ => ?_⟩
      · rintro (⟨c, hc, hname⟩ | hunknown)
        · exact hfresh c hc hname
        · exact hknown hunknown
      · change Follows layout _ ((rename old new).source new)
        rw [source, if_pos rfl]
        exact ⟨e, he, hname, rfl⟩
      · exact if_neg (hfresh _ (List.mem_map_of_mem he))
  | retype name type =>
      obtain ⟨hknown, rfl⟩ := (changeColumn_eq_ok h).mp hrun
      exact ⟨hknown, columnsOf_change fun _ => rfl,
        .of_change (fun e he _ => ⟨e, he, rfl, rfl⟩) fun _ _ _ => rfl⟩
  | clear name =>
      obtain ⟨hknown, rfl⟩ := (changeColumn_eq_ok h).mp hrun
      refine ⟨hknown, ?_, .of_change (fun e _ hname => ?_) fun e _ hname => if_neg hname⟩
      · have hsame : columnsOf (layout.map fun d =>
            if nameOf d = name then { d with source := none } else d) =
            (columnsOf layout).map fun c => if c.name = name then id c else c :=
          columnsOf_change fun _ => rfl
        simpa [onColumns] using hsame
      · change Follows layout _ ((clear name).source (nameOf e))
        rw [source, if_pos hname]
        rfl

theorem changeColumn_eq_error {change : Descent → Descent} {fault : MigrationFault}
    (h : changeColumn layout name change = .error fault) : ∀ c ∈ columnsOf layout, c.name ≠ name := by
  unfold changeColumn at h
  split at h
  · cases h
  · next hnone => exact findIdx?_eq_none_iff.mp hnone

theorem checkFresh_eq_error {fault : MigrationFault} (h : checkFresh layout name = .error fault) :
    ∃ c ∈ columnsOf layout, c.name = name := by
  unfold checkFresh at h
  split at h
  · next hused => simpa using hused
  · cases h

/-- An alteration that does not run is refused. -/
theorem run_eq_error {fault : MigrationFault} (hrun : run layout a = .error fault) :
    a.IsRefused (columnsOf layout) := by
  cases a with
  | add name type =>
      rcases Fallible.bind_eq_error.mp hrun with hused | ⟨_, _, hrun⟩
      · exact checkFresh_eq_error hused
      · cases hrun
  | remove name =>
      simp only [run] at hrun
      split at hrun
      · cases hrun
      · next hnone => exact findIdx?_eq_none_iff.mp hnone
  | rename old new =>
      rcases Fallible.bind_eq_error.mp hrun with hused | ⟨_, _, hrun⟩
      · exact .inl (checkFresh_eq_error hused)
      · exact .inr (changeColumn_eq_error hrun)
  | retype name type => exact changeColumn_eq_error hrun
  | clear name => exact changeColumn_eq_error hrun

/-- Columns keep distinct names. -/
theorem nodup_onColumns {columns : List Column} (h : (columns.map (·.name)).Nodup)
    (hnot : ¬ a.IsRefused columns) : ((a.onColumns columns).map (·.name)).Nodup := by
  cases a with
  | add name type =>
      rw [onColumns, List.map_append, List.nodup_append]
      refine ⟨h, List.nodup_singleton _, fun used hused new hnew heq => hnot ?_⟩
      obtain ⟨c, hc, rfl⟩ := List.mem_map.mp hused
      exact ⟨c, hc, heq.trans (List.mem_singleton.mp hnew)⟩
  | remove name => exact h.sublist (List.filter_sublist.map _)
  | rename old new =>
      have hnames : ((columns.map fun c => if c.name = old then { c with name := new } else c).map
          (·.name)) = (columns.map (·.name)).map fun name => if name = old then new else name := by
        rw [List.map_map, List.map_map]
        refine List.map_congr_left fun c _ => ?_
        simp only [Function.comp]
        split <;> rfl
      have hfresh : ∀ name ∈ columns.map (·.name), name ≠ new := fun name hname heq => by
        obtain ⟨c, hc, rfl⟩ := List.mem_map.mp hname
        exact hnot (.inl ⟨c, hc, heq⟩)
      -- no two names become the new one, which none of them was
      rw [onColumns, hnames]
      refine List.Nodup.map_on (fun x hx y hy hxy => ?_) h
      have := hfresh x hx
      have := hfresh y hy
      grind
  | retype name type =>
      have hnames : ((columns.map fun c => if c.name = name then { c with type } else c).map
          (·.name)) = columns.map (·.name) := by
        rw [List.map_map]
        refine List.map_congr_left fun c _ => ?_
        simp only [Function.comp]
        split <;> rfl
      rwa [onColumns, hnames]
  | clear name => exact h

/-- The names of a layout stay distinct. -/
theorem nodup_run (h : (layout.map nameOf).Nodup) (hrun : run layout a = .ok layout') :
    (layout'.map nameOf).Nodup := by
  obtain ⟨hnot, hcolumns, -⟩ := run_eq_ok h hrun
  rw [map_nameOf] at h ⊢
  rw [hcolumns]
  exact nodup_onColumns h hnot

/-! ## A list of alterations -/

variable {columns : List Column} {alterations : List Alteration}

/-- One of the alterations is refused by the columns that those before it leave. -/
def AnyRefused (columns : List Column) (alterations : List Alteration) : Prop :=
  ∃ before a after, alterations = before ++ a :: after ∧
    a.IsRefused (before.foldl onColumns columns)

theorem not_anyRefused_nil : ¬ AnyRefused columns [] := by
  rintro ⟨before, a, after, heq, -⟩
  simp at heq

theorem anyRefused_cons {rest : List Alteration} :
    AnyRefused columns (a :: rest) ↔
      a.IsRefused columns ∨ AnyRefused (a.onColumns columns) rest := by
  constructor
  · rintro ⟨before, b, after, heq, hrefused⟩
    cases before with
    | nil =>
        cases heq
        exact .inl hrefused
    | cons first before =>
        cases heq
        exact .inr ⟨before, b, after, rfl, hrefused⟩
  · rintro (hrefused | ⟨before, b, after, rfl, hrefused⟩)
    · exact ⟨[], a, rest, rfl, hrefused⟩
    · exact ⟨a :: before, b, after, rfl, hrefused⟩

/-- Where values come from is followed back one alteration after the other. -/
theorem Follows.bind {d : Descent} {mid : Option String} (h : Follows layout' d mid)
    (hstep : ∀ e ∈ layout', Follows layout e (a.source (nameOf e))) :
    Follows layout d (mid.bind a.source) := by
  cases mid with
  | none => exact h
  | some name =>
      obtain ⟨e, he, rfl, hsource⟩ := h
      have hfollows := hstep e he
      rw [Option.bind_some]
      cases hold : a.source (nameOf e) with
      | none =>
          rw [hold] at hfollows
          exact hsource.trans hfollows
      | some old =>
          rw [hold] at hfollows
          obtain ⟨f, hf, hname, hsource'⟩ := hfollows
          exact ⟨f, hf, hname, hsource.trans hsource'⟩

/-- What a list of alterations does to a layout with distinct names. -/
theorem foldlM_run_eq_ok (h : (layout.map nameOf).Nodup)
    (hrun : alterations.foldlM run layout = .ok layout') :
    ¬ AnyRefused (columnsOf layout) alterations ∧
      columnsOf layout' = alterations.foldl onColumns (columnsOf layout) ∧
      ∀ d ∈ layout', Follows layout d (origin (nameOf d) alterations) := by
  induction alterations generalizing layout with
  | nil =>
      cases hrun
      exact ⟨not_anyRefused_nil, rfl, fun d hd => .self hd⟩
  | cons a rest ih =>
      obtain ⟨mid, hmid, hrest⟩ := Fallible.bind_eq_ok.mp hrun
      obtain ⟨hnot, hcolumns, hfollows⟩ := run_eq_ok h hmid
      obtain ⟨hnot', hcolumns', hfollows'⟩ := ih (nodup_run h hmid) hrest
      rw [hcolumns] at hnot' hcolumns'
      refine ⟨?_, hcolumns', fun d hd => (hfollows' d hd).bind hfollows⟩
      rw [anyRefused_cons]
      exact not_or.mpr ⟨hnot, hnot'⟩

theorem nodup_foldlM_run (h : (layout.map nameOf).Nodup)
    (hrun : alterations.foldlM run layout = .ok layout') : (layout'.map nameOf).Nodup := by
  induction alterations generalizing layout with
  | nil =>
      cases hrun
      exact h
  | cons a rest ih =>
      obtain ⟨mid, hmid, hrest⟩ := Fallible.bind_eq_ok.mp hrun
      exact ih (nodup_run h hmid) hrest

/-- A list of alterations that does not run to its end is refused. -/
theorem foldlM_run_eq_error (h : (layout.map nameOf).Nodup) {fault : MigrationFault}
    (hrun : alterations.foldlM run layout = .error fault) :
    AnyRefused (columnsOf layout) alterations := by
  induction alterations generalizing layout with
  | nil => cases hrun
  | cons a rest ih =>
      rw [anyRefused_cons]
      rcases Fallible.bind_eq_error.mp hrun with hfault | ⟨mid, hmid, hrest⟩
      · exact .inl (run_eq_error hfault)
      · obtain ⟨hnot, hcolumns, -⟩ := run_eq_ok h hmid
        exact .inr (hcolumns ▸ ih (nodup_run h hmid) hrest)

end Concordance.Alteration
