import Concordance.Proofs.Metadata.Conversion

/-!
# Records are built in place

The record of a document starts as zeros. The values that the document assigns are written into the
slots of their columns, in the order of the names, and the aggregates into theirs in a second pass
(`recordSteps`). Every look at a place is checked here, and the steps end `outside` if one fails.

- The slots lie one behind the other and fill the record, so a write changes the bytes of its own
  column and no others (`writeSlot_flatMap`).
- Hence the steps never leave the record, and end with the bytes of the columns one behind the other,
  as if each were encoded by itself (`recordSteps_eq`).
-/

namespace Concordance

/-! ## Places in a list of bytes -/

/-- The bytes between two places, if the places are there. -/
def bytesIn? (bytes : List UInt8) (start stop : Nat) : Option (List UInt8) :=
  if start ≤ stop ∧ stop ≤ bytes.length then some ((bytes.take stop).drop start) else none

/-- Writes bytes between two places, if the places are there and the bytes fill what is between. -/
def splice? (bytes : List UInt8) (start stop : Nat) (new : List UInt8) : Option (List UInt8) :=
  if start ≤ stop ∧ stop ≤ bytes.length ∧ new.length = stop - start then
    some (bytes.take start ++ new ++ bytes.drop stop)
  else none

theorem bytesIn?_append (before bytes after : List UInt8) :
    bytesIn? (before ++ bytes ++ after) before.length (before.length + bytes.length) = some bytes := by
  have hplaces : before.length ≤ before.length + bytes.length ∧
      before.length + bytes.length ≤ (before ++ bytes ++ after).length := by
    simp only [List.length_append]
    omega
  rw [bytesIn?, if_pos hplaces, List.take_left' (List.length_append), List.drop_left]

theorem splice?_append (before bytes after : List UInt8) {new : List UInt8}
    (h : new.length = bytes.length) :
    splice? (before ++ bytes ++ after) before.length (before.length + bytes.length) new =
      some (before ++ new ++ after) := by
  have hplaces : before.length ≤ before.length + bytes.length ∧
      before.length + bytes.length ≤ (before ++ bytes ++ after).length ∧
      new.length = before.length + bytes.length - before.length := by
    simp only [List.length_append]
    omega
  rw [splice?, if_pos hplaces, List.drop_left' (List.length_append), List.append_assoc before,
    List.take_left]

namespace Schema

/-! ## Slots -/

/-- The places where columns start that lie one behind the other. -/
def offsetsFrom (start : Nat) : List Column → List Nat
  | [] => []
  | c :: rest => start :: offsetsFrom (start + c.type.size) rest

/-- The places where the bytes of a column start and stop. -/
def slot? (s : Schema) (i : Nat) : Option (Nat × Nat) := do
  let start ← (offsetsFrom 0 s.columns)[i]?
  let c ← s.columns[i]?
  return (start, start + c.type.size)

/-- Why the steps that build a record end early. -/
inductive Halt where
  | refused (fault : RecordFault)
  /-- A place that is not there was looked at. -/
  | outside

/-- What is there, or the end outside. -/
def present {α : Type} : Option α → Except Halt α
  | some a => .ok a
  | none => .error .outside

/-- Writes an assigned value into the slot of its column. -/
def assignStep (s : Schema) (record : List UInt8) (assigned : String × Numeric) :
    Except Halt (List UInt8) :=
  match s.indexOf? assigned.1 with
  | none => .error (.refused (.unknownColumn assigned.1))
  | some i => do
    let c ← present s.columns[i]?
    if c.aggregate.isSome then .error (.refused (.aggregated assigned.1))
    else
      let (start, stop) ← present (s.slot? i)
      let _ ← present (bytesIn? record start stop)
      match c.type.encode assigned.2 with
      | .ok bytes => present (splice? record start stop bytes)
      | .error reason => .error (.refused (.misfit assigned.1 reason))

/-- Writes the aggregate of a column into its slot. -/
def aggregateStep (s : Schema) (doc : Document) (record : List UInt8) (place : Column × Nat) :
    Except Halt (List UInt8) :=
  match place.1.aggregate with
  | none => .ok record
  | some a => do
    let (start, stop) ← present (s.slot? place.2)
    present (splice? record start stop (place.1.type.encodeClamped (a.compute doc)))

/-- Builds the record of a document in place. -/
def recordSteps (s : Schema) (doc : Document) : Except Halt (List UInt8) := do
  let record ← doc.metadata.toList.foldlM s.assignStep s.zeroRecord
  s.columns.zipIdx.foldlM (s.aggregateStep doc) record

variable {s : Schema} {doc : Document} {i : Nat} {c : Column}

/-- A column starts where those in front of it end. -/
theorem getElem?_offsetsFrom {columns : List Column} (start : Nat) (h : i < columns.length) :
    (offsetsFrom start columns)[i]? =
      some (start + Number.total ((columns.take i).map (·.type.size))) := by
  induction columns generalizing start i with
  | nil => simp at h
  | cons c rest ih =>
      cases i with
      | zero => rfl
      | succ i =>
          rw [offsetsFrom, List.getElem?_cons_succ, ih _ (by simpa using h), Nat.add_assoc]
          rfl

theorem slot?_eq (h : s.columns[i]? = some c) :
    s.slot? i = some (s.offset i, s.offset i + c.type.size) := by
  obtain ⟨hi, -⟩ := List.getElem?_eq_some_iff.mp h
  rw [slot?, getElem?_offsetsFrom 0 hi, h, Nat.zero_add]
  rfl

/-- A slot stops where the next one starts. -/
theorem offset_succ (h : s.columns[i]? = some c) :
    s.offset (i + 1) = s.offset i + c.type.size := by
  have htotal : ∀ (l : List Nat) (n : Nat), Number.total (l ++ [n]) = Number.total l + n := by
    intro l n
    induction l with
    | nil => simp [Number.total]
    | cons m l ih => simp [Number.total, ih, Nat.add_assoc]
  rw [offset, List.take_add_one, h, List.map_append, offset]
  exact htotal _ _

/-! ## Writing a slot -/

/-- The columns in front of one and those behind it. -/
theorem columns_split (h : s.columns[i]? = some c) :
    ∃ before after, s.columns = before ++ c :: after ∧
      s.offset i = Number.total (before.map (·.type.size)) := by
  obtain ⟨hi, hc⟩ := List.getElem?_eq_some_iff.mp h
  refine ⟨s.columns.take i, s.columns.drop (i + 1), ?_, rfl⟩
  rw [← hc, List.getElem_cons_drop, List.take_append_drop]

/-- A record that holds some bytes for each column, in the place of a column. -/
theorem flatMap_split (h : s.columns[i]? = some c) {bytes : Column → List UInt8}
    (hlength : ∀ d ∈ s.columns, (bytes d).length = d.type.size) :
    ∃ before after, s.columns = before ++ c :: after ∧
      s.columns.flatMap bytes = before.flatMap bytes ++ bytes c ++ after.flatMap bytes ∧
      (before.flatMap bytes).length = s.offset i := by
  obtain ⟨before, after, hcolumns, hoffset⟩ := columns_split h
  refine ⟨before, after, hcolumns, by rw [hcolumns]; simp, ?_⟩
  rw [hoffset]
  exact length_flatMap_columns _ _ fun d hd =>
    hlength d (hcolumns ▸ List.mem_append_left _ hd)

theorem bytesIn?_flatMap (h : s.columns[i]? = some c) {bytes : Column → List UInt8}
    (hlength : ∀ d ∈ s.columns, (bytes d).length = d.type.size) :
    bytesIn? (s.columns.flatMap bytes) (s.offset i) (s.offset i + c.type.size) = some (bytes c) := by
  obtain ⟨before, after, -, hrecord, hoffset⟩ := flatMap_split h hlength
  rw [hrecord, ← hoffset, ← hlength c (List.mem_of_getElem? h)]
  exact bytesIn?_append _ _ _

/-- A slot lies inside a record. -/
theorem exists_bytesIn? (h : s.columns[i]? = some c) {record : List UInt8}
    (hlength : record.length = s.recordSize) :
    ∃ bytes, bytesIn? record (s.offset i) (s.offset i + c.type.size) = some bytes :=
  ⟨_, if_pos ⟨Nat.le_add_right _ _, hlength ▸ offset_add_size_le h⟩⟩

/-- A column reads the bytes of its slot. -/
theorem decode_of_bytesIn? (h : s.columns[i]? = some c) {record bytes : List UInt8}
    (hslice : bytesIn? record (s.offset i) (s.offset i + c.type.size) = some bytes) :
    s.decode record i = c.type.decode bytes := by
  rw [bytesIn?, List.drop_take, Nat.add_sub_cancel_left] at hslice
  split at hslice
  · cases hslice
    rw [decode, h]
  · cases hslice

/-- A write changes the bytes of its own column and no others. -/
theorem splice?_flatMap (h : s.columns[i]? = some c) {bytes : Column → List UInt8}
    (hlength : ∀ d ∈ s.columns, (bytes d).length = d.type.size) {new : List UInt8}
    (hnew : new.length = c.type.size) :
    splice? (s.columns.flatMap bytes) (s.offset i) (s.offset i + c.type.size) new =
      some (s.columns.flatMap fun d => if d.name = c.name then new else bytes d) := by
  obtain ⟨before, after, hcolumns, hrecord, hoffset⟩ := flatMap_split h hlength
  have hc := hlength c (List.mem_of_getElem? h)
  rw [hrecord, ← hoffset, ← hc, splice?_append _ _ _ (hnew.trans hc.symm), hcolumns,
    List.flatMap_append, List.flatMap_cons, if_pos rfl, List.append_assoc]
  -- no other column has the name
  have hdistinct := s.distinct
  rw [hcolumns, List.map_append, List.map_cons, List.nodup_append, List.nodup_cons] at hdistinct
  obtain ⟨-, ⟨hbehind, -⟩, hfront⟩ := hdistinct
  have hsame : ∀ l : List Column, (∀ d ∈ l, d.name ≠ c.name) →
      l.flatMap (fun d => if d.name = c.name then new else bytes d) = l.flatMap bytes := by
    intro l hl
    rw [List.flatMap_def, List.flatMap_def]
    exact congrArg List.flatten (List.map_congr_left fun d hd => if_neg (hl d hd))
  rw [hsame before fun d hd => hfront _ (List.mem_map_of_mem hd) _ List.mem_cons_self,
    hsame after fun d hd heq => hbehind (heq ▸ List.mem_map_of_mem hd)]

/-! ## The two passes -/

/-- What is encoded for a column goes into its slot; a fault is the fault of the step. -/
theorem assignStep_flatMap {bytes : Column → List UInt8}
    (hlength : ∀ d ∈ s.columns, (bytes d).length = d.type.size) (name : String) (value : Numeric) :
    s.assignStep (s.columns.flatMap bytes) (name, value) =
      match s.encodeAssigned name value with
      | .error fault => .error (.refused fault)
      | .ok (_, new) => .ok (s.columns.flatMap fun d => if d.name = name then new else bytes d) := by
  unfold assignStep encodeAssigned
  cases hindex : s.indexOf? name with
  | none =>
      have hnone : s.columns.find? (·.name == name) = none := by
        rw [List.find?_eq_none]
        intro c hc
        simpa using List.findIdx?_eq_none_iff.mp hindex c hc
      rw [hnone]
  | some i =>
      obtain ⟨c, hc, rfl⟩ := indexOf?_eq_some_iff.mp hindex
      rw [find?_name s.distinct (List.mem_of_getElem? hc)]
      dsimp only
      rw [hc]
      change (if c.aggregate.isSome then _ else _) = _
      split
      · rfl
      · rw [slot?_eq hc]
        change (present (bytesIn? _ _ _) >>= fun _ => _) = _
        rw [bytesIn?_flatMap hc hlength]
        cases hencode : c.type.encode value with
        | error reason => rfl
        | ok new =>
            change present (splice? _ _ _ _) = _
            rw [splice?_flatMap hc hlength (ColumnType.length_encode hencode)]
            rfl

theorem length_of_encodeAssigned {name x : String} {value : Numeric} {new : List UInt8}
    (h : s.encodeAssigned name value = .ok (x, new)) :
    ∀ d ∈ s.columns, d.name = name → new.length = d.type.size := by
  rintro d hd rfl
  obtain ⟨-, c, hfind, hlength⟩ := length_encodeAssigned h
  rw [find?_name s.distinct hd] at hfind
  cases hfind
  exact hlength

theorem getD_lookup_cons (x : String) (new : List UInt8) (more : List (String × List UInt8))
    (name : String) (old : List UInt8) :
    (((x, new) :: more).lookup name).getD old =
      if name = x then new else (more.lookup name).getD old := by
  rw [List.lookup_cons]
  by_cases h : name = x
  · simp [h]
  · rw [beq_false_of_ne h, if_neg h]

/-- The first pass leaves in each slot what is encoded for its column, and else what was there. -/
theorem foldlM_assignStep {l : List (String × Numeric)} (hnames : (l.map (·.1)).Nodup)
    {bytes : Column → List UInt8} (hlength : ∀ d ∈ s.columns, (bytes d).length = d.type.size) :
    l.foldlM s.assignStep (s.columns.flatMap bytes) =
      match l.mapM fun e => s.encodeAssigned e.1 e.2 with
      | .error fault => .error (.refused fault)
      | .ok assigned => .ok (s.columns.flatMap fun d => (assigned.lookup d.name).getD (bytes d)) := by
  induction l generalizing bytes with
  | nil => rfl
  | cons e rest ih =>
      obtain ⟨name, value⟩ := e
      obtain ⟨hfresh, hrest⟩ := List.nodup_cons.mp hnames
      rw [List.foldlM_cons, List.mapM_cons, assignStep_flatMap hlength]
      cases hencode : s.encodeAssigned name value with
      | error fault => rfl
      | ok assigned =>
          obtain ⟨x, new⟩ := assigned
          obtain rfl : x = name := (length_encodeAssigned hencode).1
          change (rest.foldlM s.assignStep _) = _
          have hnew : ∀ d ∈ s.columns,
              (if d.name = x then new else bytes d).length = d.type.size := by
            intro d hd
            split
            · next hname => exact length_of_encodeAssigned hencode d hd hname
            · exact hlength d hd
          rw [ih hrest hnew]
          cases hmore : rest.mapM fun e => s.encodeAssigned e.1 e.2 with
          | error fault => rfl
          | ok more =>
              have hnames' : more.map (·.1) = rest.map (·.1) :=
                Fallible.map_eq_of_mapM (fun _ _ h => (length_encodeAssigned h).1) hmore
              -- the name is assigned only once
              have hnone : more.lookup x = none := by
                rw [List.lookup_eq_none_iff]
                intro p hp
                have hmem : p.1 ∈ rest.map (·.1) := hnames' ▸ List.mem_map_of_mem hp
                simpa using fun heq : x = p.1 => hfresh (heq ▸ hmem)
              refine congrArg Except.ok (List.flatMap_congr fun d _ => ?_)
              rw [getD_lookup_cons]
              split
              · next hname => rw [hname, hnone, Option.getD_none]
              · rfl

/-- The second pass leaves the aggregates in the slots of their columns. -/
theorem foldlM_aggregateStep {before after : List Column} (hcolumns : s.columns = before ++ after)
    {bytes : Column → List UInt8} (hlength : ∀ d ∈ s.columns, (bytes d).length = d.type.size) :
    (after.zipIdx before.length).foldlM (s.aggregateStep doc) (s.columns.flatMap bytes) =
      .ok (s.columns.flatMap fun d =>
        match d.aggregate with
        | some a => if d ∈ after then d.type.encodeClamped (a.compute doc) else bytes d
        | none => bytes d) := by
  induction after generalizing before bytes with
  | nil =>
      refine congrArg Except.ok (List.flatMap_congr fun d _ => ?_)
      cases d.aggregate <;> simp
  | cons c rest ih =>
      have hc : s.columns[before.length]? = some c := by simp [hcolumns]
      have hnext : s.columns = (before ++ [c]) ++ rest := by simp [hcolumns]
      have hplace : before.length + 1 = (before ++ [c]).length := by simp
      rw [List.zipIdx_cons, List.foldlM_cons, hplace]
      cases haggregate : c.aggregate with
      | none =>
          simp only [aggregateStep, haggregate]
          change (rest.zipIdx _).foldlM _ _ = _
          rw [ih hnext hlength]
          refine congrArg Except.ok (List.flatMap_congr fun d _ => ?_)
          cases hd : d.aggregate with
          | none => rfl
          | some a =>
              have hne : d ≠ c := by
                rintro rfl
                cases hd.symm.trans haggregate
              simp [hne]
      | some a =>
          have hnew := c.type.length_encodeClamped (a.compute doc)
          simp only [aggregateStep, haggregate]
          rw [slot?_eq hc]
          change (present (splice? _ _ _ _) >>= _) = _
          rw [splice?_flatMap hc hlength hnew]
          change (rest.zipIdx _).foldlM _ _ = _
          have hcolumn : ∀ d ∈ s.columns, d.name = c.name → d = c := fun d hd hname =>
            List.inj_on_of_nodup_map s.distinct hd (List.mem_of_getElem? hc) hname
          rw [ih hnext fun d hd => ?_]
          · refine congrArg Except.ok (List.flatMap_congr fun d hd => ?_)
            by_cases hname : d.name = c.name
            · obtain rfl := hcolumn d hd hname
              simp [haggregate]
            · have hne : d ≠ c := fun heq => hname (heq ▸ rfl)
              simp [hname, hne]
          · split
            · next hname => rw [hcolumn d hd hname, hnew]
            · exact hlength d hd

/-- The steps end with the bytes of the columns one behind the other, and never outside. -/
theorem recordSteps_eq (s : Schema) (doc : Document) :
    s.recordSteps doc = (s.buildRecord doc).mapError .refused := by
  have hzero : s.zeroRecord = s.columns.flatMap fun c => c.type.zeroBytes :=
    zeroRecord_eq_flatMap s
  have hnames : (doc.metadata.toList.map (·.1)).Nodup := doc.metadata.nodup_keys
  rw [recordSteps, hzero, foldlM_assignStep hnames fun d _ => ColumnType.length_zeroBytes _]
  unfold buildRecord
  change _ = ((doc.metadata.toList.mapM fun e => s.encodeAssigned e.1 e.2) >>= _).mapError _
  cases hassigned : doc.metadata.toList.mapM fun e => s.encodeAssigned e.1 e.2 with
  | error fault => rfl
  | ok assigned =>
      change s.columns.zipIdx.foldlM (s.aggregateStep doc) _ = .ok (s.columns.flatMap _)
      have hlength : ∀ d ∈ s.columns,
          ((assigned.lookup d.name).getD d.type.zeroBytes).length = d.type.size := by
        intro d hd
        cases hlookup : assigned.lookup d.name with
        | none => exact ColumnType.length_zeroBytes _
        | some bytes => exact length_of_assigned hassigned hd hlookup
      rw [show s.columns.zipIdx = s.columns.zipIdx ([] : List Column).length from rfl,
        foldlM_aggregateStep (List.nil_append _).symm hlength]
      refine congrArg Except.ok (List.flatMap_congr fun d hd => ?_)
      unfold columnBytes
      cases d.aggregate with
      | none => rfl
      | some a => exact if_pos hd

end Schema

end Concordance
