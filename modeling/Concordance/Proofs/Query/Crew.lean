import Concordance.Proofs.Query.Reach

/-!
# How a crew finds a document

If the parts of a structure are lawful, the crew of its cursor leaps to the nearest candidate,
wherever the parts were moved before (`Leaps`), and lands on it with the matches of the structure
(`Lands`). Then a search passes over the candidates without matches and finds the nearest document
that has some (`search_finds`). A crew that leaps to the nearest document of any part remembers
where the parts stand; that it does not move a part needlessly rests on `IsNearest.later`.
-/

namespace Concordance

namespace Crew

open Cursor (Reached Lawful Seek)

/-! ## Searches -/

/-- A search from `n` on finds the nearest document with matches, and the matches. -/
structure Finds (found : Nat → Option (List Span)) (n : Nat) (hit : Option (Nat × List Span)) :
    Prop where
  nearest : IsNearest (fun d => (found d).isSome = true) n (hit.map (·.1))
  spans : ∀ h ∈ hit, found h.1 = some h.2

/-- From any crew as it is `before` a search, a leap reaches the nearest candidate with a crew as it
is `on` the candidate. -/
def Leaps (leap : Leap) (before : Crew Cursor → Prop) (on : Nat → Crew Cursor → Prop)
    (candidate : Nat → Prop) : Prop :=
  ∀ crew n, 1 ≤ n → before crew → IsNearest candidate n (leap crew n).1 ∧
    match (leap crew n).1 with
    | some d => on d (leap crew n).2
    | none => before (leap crew n).2

/-- From a crew on a candidate, a landing finds its matches. -/
def Lands (land : Landing) (before : Crew Cursor → Prop) (on : Nat → Crew Cursor → Prop)
    (found : Nat → Option (List Span)) : Prop :=
  ∀ crew d, 1 ≤ d → on d crew → (land crew d).1 = found d ∧ before (land crew d).2

/-- A search passes over the candidates without matches. -/
theorem search_finds {leap : Leap} {land : Landing} {before : Crew Cursor → Prop}
    {on : Nat → Crew Cursor → Prop} {candidate : Nat → Prop} {found : Nat → Option (List Span)}
    {bound : Nat} (hleap : Leaps leap before on candidate) (hland : Lands land before on found)
    (hcandidate : ∀ d, (found d).isSome = true → candidate d)
    (hbound : ∀ d, candidate d → d ≤ bound) {fuel n : Nat} {crew : Crew Cursor} (hn : 1 ≤ n)
    (hfuel : bound < fuel + n) (h : before crew) :
    Finds found n (search leap land fuel crew n).1 ∧ before (search leap land fuel crew n).2 := by
  induction fuel generalizing n crew with
  | zero =>
      refine ⟨⟨fun e he hfound => ?_, by simp [search]⟩, h⟩
      have := hbound e (hcandidate e hfound)
      omega
  | succ fuel ih =>
      obtain ⟨hnearest, hcrew⟩ := hleap crew n hn h
      unfold search
      cases hstep : leap crew n with
      | mk reached crew' =>
          rw [hstep] at hnearest hcrew
          cases reached with
          | none => exact ⟨⟨fun e he => mt (hcandidate e) (hnearest e he), by simp⟩, hcrew⟩
          | some d =>
              obtain ⟨hnd, -, hskipped⟩ := hnearest
              have hskips : ∀ e, n ≤ e → e < d → ¬ (found e).isSome = true :=
                fun e he hlt => mt (hcandidate e) (hskipped e he hlt)
              obtain ⟨hfound, hafter⟩ := hland crew' d (Nat.le_trans hn hnd) hcrew
              dsimp only
              cases hlanded : land crew' d with
              | mk spans? crew'' =>
                  rw [hlanded] at hfound hafter
                  dsimp only at hfound hafter
                  subst hfound
                  cases hspans : found d with
                  | some spans =>
                      have hthere : (found d).isSome = true :=
                        Option.isSome_iff_exists.mpr ⟨spans, hspans⟩
                      refine ⟨⟨⟨hnd, hthere, hskips⟩, ?_⟩, hafter⟩
                      rintro _ ⟨⟩
                      exact hspans
                  | none =>
                      -- nothing up to the candidate, so the rest of the search decides
                      obtain ⟨⟨hrest, hlast⟩, hbefore⟩ :=
                        ih (Nat.succ_le_succ (Nat.zero_le d)) (by omega) hafter
                      refine ⟨⟨hrest.earlier (by omega) fun e he hlt => ?_, hlast⟩, hbefore⟩
                      rcases Nat.lt_or_eq_of_le (Nat.lt_succ_iff.mp hlt) with hlt | rfl
                      · exact hskips e he hlt
                      · rw [hspans]
                        exact Bool.false_ne_true

/-! ## Seats

The parts of a structure and the cursors of its crew go together one by one. -/

/-- The cursors of a crew belong to the parts and the delimiter of a structure. -/
structure Seated (seat : Plan → Cursor × Standing → Prop) (parts : List Plan)
    (delimiter : Option Plan) (crew : Crew Cursor) : Prop where
  parts : List.Forall₂ seat parts crew.parts
  delimiter : Option.Rel Reached delimiter crew.delimiter

/-- The cursor of a part, wherever it is. -/
def Seat (p : Plan) (part : Cursor × Standing) : Prop := Reached p part.1

/-- The cursor of a part on a document. -/
def SeatOn (d : Nat) (p : Plan) (part : Cursor × Standing) : Prop :=
  Reached p part.1 ∧ part.1.document = some d

/-- The cursor of a part that was moved to its nearest document from a number on, and is known to
stand there. -/
structure Known (n : Nat) (p : Plan) (part : Cursor × Standing) : Prop where
  reached : Reached p part.1
  standing : part.2 = .ofDocument part.1.document
  nearest : IsNearest (fun d => p.presentAt d) n part.1.document

/-- The cursor of a part in a crew that remembers where the parts stand. -/
def SeatFrom (n : Nat) (p : Plan) (part : Cursor × Standing) : Prop :=
  (part.2 = .unknown ∧ Reached p part.1) ∨ Known n p part

/-- Moves the cursors of parts one by one. -/
theorem forall₂_zipWith {R S : Plan → Cursor × Standing → Prop} {parts : List Plan}
    {cursors : List (Cursor × Standing)} {move : Seek → Cursor × Standing → Cursor × Standing}
    (h : List.Forall₂ R parts cursors)
    (hmove : ∀ p ∈ parts, ∀ part, R p part → S p (move (Cursor.seek p) part)) :
    List.Forall₂ S parts (List.zipWith move (parts.map Cursor.seek) cursors) := by
  induction h with
  | nil => exact List.Forall₂.nil
  | @cons p part parts cursors hfirst _ ih =>
      rw [List.map_cons, List.zipWith_cons_cons]
      refine List.Forall₂.cons (hmove p List.mem_cons_self part hfirst) (ih fun q hq => ?_)
      exact hmove q (List.mem_cons_of_mem _ hq)

/-! ## Leaps to any part -/

@[simp] theorem document?_ofDocument (o : Option Nat) : (Standing.ofDocument o).document? = o := by
  cases o <;> rfl

theorem Known.bring {n t : Nat} {p : Plan} {part : Cursor × Standing} (hlaw : Lawful p)
    (hn : 1 ≤ n) (ht : t ≤ n) (h : SeatFrom t p part) : Known n p (bring n (Cursor.seek p) part) := by
  have hseek : ∀ (hreached : Reached p part.1),
      Known n p (Cursor.seek p part.1 n, .ofDocument (Cursor.seek p part.1 n).document) := by
    intro hreached
    refine ⟨hreached.seek n, rfl, ?_⟩
    have hnearest := hlaw.nearest hreached n
    rwa [Nat.max_eq_left hn] at hnearest
  unfold Crew.bring
  rcases h with ⟨hunknown, hreached⟩ | hknown
  · rw [hunknown]
    exact hseek hreached
  · split
    · exact hseek hknown.reached
    · next hkept =>
        -- a part that is far enough already keeps its place
        refine ⟨hknown.reached, hknown.standing, hknown.nearest.later ht fun d hd => ?_⟩
        rw [hknown.standing, hd] at hkept
        simpa [Standing.ofDocument, Standing.isBefore] using hkept

/-- A crew on a candidate of `leapAny`: every part is known to stand on its nearest document, and
those on the candidate are the ones that have it. -/
def OnAny (parts : List Plan) (delimiter : Option Plan) (d : Nat) (crew : Crew Cursor) : Prop :=
  Seated (fun p part => Known crew.target p part ∧ (part.2 = .on d ↔ p.presentAt d = true)) parts
    delimiter crew

/-- A crew that remembers its standings. -/
def BeforeAny (parts : List Plan) (delimiter : Option Plan) (crew : Crew Cursor) : Prop :=
  Seated (SeatFrom crew.target) parts delimiter crew

theorem leapAny_leaps {parts : List Plan} {delimiter : Option Plan}
    (hlaw : ∀ p ∈ parts, Lawful p) :
    Leaps (leapAny (parts.map Cursor.seek)) (BeforeAny parts delimiter) (OnAny parts delimiter)
      (fun d => ∃ p ∈ parts, p.presentAt d = true) := by
  intro crew n hn hcrew
  -- going back makes the crew forget its standings
  have hready : List.Forall₂ (fun p part => ∃ t ≤ n, SeatFrom t p part) parts
      (if n < crew.target then crew.parts.map forget else crew.parts) := by
    split
    · refine List.forall₂_map_right_iff.mpr (hcrew.parts.imp fun p part hseat => ?_)
      refine ⟨0, Nat.zero_le n, .inl ⟨rfl, ?_⟩⟩
      rcases hseat with ⟨-, hreached⟩ | hknown
      · exact hreached
      · exact hknown.reached
    · next hforward =>
        exact hcrew.parts.imp fun p part hseat => ⟨crew.target, Nat.not_lt.mp hforward, hseat⟩
  have hknown : List.Forall₂ (Known n) parts (leapAny (parts.map Cursor.seek) crew n).2.parts := by
    refine forall₂_zipWith hready fun p hp part hseat => ?_
    obtain ⟨t, ht, hseat⟩ := hseat
    exact Known.bring (hlaw p hp) hn ht hseat
  have hnearest : IsNearest (fun d => ∃ p ∈ parts, p.presentAt d = true) n
      (leapAny (parts.map Cursor.seek) crew n).1 := by
    have hanswers : List.Forall₂ (fun p answer => IsNearest (fun d => p.presentAt d = true) n answer)
        parts ((leapAny (parts.map Cursor.seek) crew n).2.parts.map (·.1.document)) :=
      List.forall₂_map_right_iff.mpr (hknown.imp fun p part h => h.nearest)
    have hdocuments : ∀ (ps : List Plan) (cursors : List (Cursor × Standing)),
        List.Forall₂ (Known n) ps cursors →
        cursors.filterMap (·.2.document?) = (cursors.map (·.1.document)).filterMap id := by
      intro ps cursors h
      induction h with
      | nil => rfl
      | cons hfirst _ ih =>
          rw [List.filterMap_cons, hfirst.standing, document?_ofDocument, ih, List.map_cons,
            List.filterMap_cons]
          rfl
    have hmin := IsNearest.min? hanswers
    rw [← hdocuments _ _ hknown] at hmin
    exact hmin
  refine ⟨hnearest, ?_⟩
  cases hcandidate : (leapAny (parts.map Cursor.seek) crew n).1 with
  | none => exact ⟨hknown.imp fun p part h => .inr h, hcrew.delimiter⟩
  | some d =>
      rw [hcandidate] at hnearest
      have hon : List.Forall₂ (fun p part => p ∈ parts ∧ Known n p part) parts
          (leapAny (parts.map Cursor.seek) crew n).2.parts :=
        (List.forall₂_and_left _ _).mpr ⟨fun _ hp => hp, hknown⟩
      refine ⟨hon.imp fun p part ⟨hp, h⟩ => ⟨h, ?_⟩, hcrew.delimiter⟩
      have hdoc : part.2 = .on d ↔ part.1.document = some d := by
        rw [h.standing]
        cases part.1.document <;> simp [Standing.ofDocument]
      rw [hdoc]
      constructor
      · intro hd
        have := h.nearest
        rw [hd] at this
        exact this.passes
      · intro hpresent
        obtain ⟨e, he, hle⟩ := h.nearest.exists_le hnearest.1 hpresent
        have hthere := h.nearest
        rw [he] at hthere
        obtain ⟨e', he', hle'⟩ := hnearest.exists_le hthere.1 ⟨p, hp, hthere.passes⟩
        cases he'
        rw [he, Nat.le_antisymm hle hle']

/-! ## Leaps of all parts -/

/-- The parts of a probe either all stop at the number, or one of them has no document before the
answer. -/
theorem probe_spec {parts : List Plan} {cursors : List (Cursor × Standing)}
    (hlaw : ∀ p ∈ parts, Lawful p) {n : Nat} (hn : 1 ≤ n) (h : List.Forall₂ Seat parts cursors) :
    List.Forall₂ Seat parts (probe (parts.map Cursor.seek) cursors n).2 ∧
      match (probe (parts.map Cursor.seek) cursors n).1 with
      | none => ∃ p ∈ parts, ∀ e, n ≤ e → ¬ p.presentAt e = true
      | some d => n ≤ d ∧
        (d = n → List.Forall₂ (SeatOn d) parts (probe (parts.map Cursor.seek) cursors n).2) ∧
        (n < d → ∃ p ∈ parts, ∀ e, n ≤ e → e < d → ¬ p.presentAt e = true) := by
  induction h with
  | nil => exact ⟨List.Forall₂.nil, Nat.le_refl n, fun _ => List.Forall₂.nil, fun hlt => by omega⟩
  | @cons p part parts cursors hfirst hrest ih =>
      obtain ⟨c, standing⟩ := part
      have hnearest := (hlaw p List.mem_cons_self).nearest hfirst n
      rw [Nat.max_eq_left hn] at hnearest
      have hreached : Reached p (Cursor.seek p c n) := hfirst.seek n
      rw [List.map_cons, probe]
      dsimp only
      split
      · next hdoc =>
          rw [hdoc] at hnearest
          exact ⟨List.Forall₂.cons hreached hrest, p, List.mem_cons_self, hnearest⟩
      · next d hdoc =>
          rw [hdoc] at hnearest
          split
          · next hlt =>
              refine ⟨List.Forall₂.cons hreached hrest, Nat.le_of_lt hlt, fun heq => by omega, ?_⟩
              exact fun _ => ⟨p, List.mem_cons_self, hnearest.2.2⟩
          · next hge =>
              have hstops : d = n := Nat.le_antisymm (Nat.not_lt.mp hge) hnearest.1
              obtain ⟨hseats, hanswer⟩ := ih fun q hq => hlaw q (List.mem_cons_of_mem _ hq)
              refine ⟨List.Forall₂.cons hreached hseats, ?_⟩
              cases hfound : (probe (parts.map Cursor.seek) cursors n).1 with
              | none =>
                  rw [hfound] at hanswer
                  obtain ⟨q, hq, hnone⟩ := hanswer
                  exact ⟨q, List.mem_cons_of_mem _ hq, hnone⟩
              | some e =>
                  rw [hfound] at hanswer
                  obtain ⟨hle, hall, hskips⟩ := hanswer
                  refine ⟨hle, fun heq => ?_, fun hlt => ?_⟩
                  · refine List.Forall₂.cons ⟨hreached, ?_⟩ (hall heq)
                    dsimp only
                    rw [hdoc, hstops, heq]
                  · obtain ⟨q, hq, hnone⟩ := hskips hlt
                    exact ⟨q, List.mem_cons_of_mem _ hq, hnone⟩

/-- Parts that all stand on a document all have it. -/
theorem presentAt_of_seatOn {parts : List Plan} {cursors : List (Cursor × Standing)} {d : Nat}
    (hlaw : ∀ p ∈ parts, Lawful p) (h : List.Forall₂ (SeatOn d) parts cursors) :
    ∀ p ∈ parts, p.presentAt d = true := by
  have hpresent : List.Forall₂ (fun p part => p.presentAt d = true ∧ SeatOn d p part) parts
      cursors := by
    have hmem := (List.forall₂_and_left parts cursors).mpr ⟨fun p (hp : p ∈ parts) => hp, h⟩
    refine hmem.imp fun p part ⟨hp, hreached, hdoc⟩ => ⟨?_, hreached, hdoc⟩
    have hstands := (hlaw p hp).stands hreached
    rw [Cursor.Stands, hdoc] at hstands
    exact Option.isSome_iff_exists.mpr ⟨_, hstands⟩
  exact ((List.forall₂_and_left _ _).mp hpresent).1

/-- The parts leap over each other to the nearest document that they share. -/
theorem agree_spec {parts : List Plan} (hlaw : ∀ p ∈ parts, Lawful p) {bound : Nat}
    (hbound : ∀ d, (∀ p ∈ parts, p.presentAt d = true) → d ≤ bound) {fuel n : Nat}
    {cursors : List (Cursor × Standing)} (hn : 1 ≤ n) (hfuel : bound < fuel + n)
    (h : List.Forall₂ Seat parts cursors) :
    IsNearest (fun d => ∀ p ∈ parts, p.presentAt d = true) n
        (agree (parts.map Cursor.seek) fuel cursors n).1 ∧
      List.Forall₂ Seat parts (agree (parts.map Cursor.seek) fuel cursors n).2 ∧
      ∀ d, (agree (parts.map Cursor.seek) fuel cursors n).1 = some d →
        List.Forall₂ (SeatOn d) parts (agree (parts.map Cursor.seek) fuel cursors n).2 := by
  induction fuel generalizing n cursors with
  | zero =>
      refine ⟨fun e he hall => ?_, h, fun d hd => by cases hd⟩
      have := hbound e hall
      omega
  | succ fuel ih =>
      obtain ⟨hseats, hanswer⟩ := probe_spec hlaw hn h
      unfold agree
      cases hprobe : probe (parts.map Cursor.seek) cursors n with
      | mk found cursors' =>
          rw [hprobe] at hseats hanswer
          cases found with
          | none =>
              obtain ⟨p, hp, hnone⟩ := hanswer
              exact ⟨fun e he hall => hnone e he (hall p hp), hseats, fun d hd => by cases hd⟩
          | some d =>
              obtain ⟨hle, hall, hskips⟩ := hanswer
              dsimp only at hseats hall ⊢
              rcases Nat.lt_or_eq_of_le hle with hlt | heq
              · -- a part skips the numbers up to the answer, so nothing is shared there
                obtain ⟨p, hp, hnone⟩ := hskips hlt
                obtain ⟨hnearest, hlast⟩ := ih (n := d) (by omega) (by omega) hseats
                rw [if_neg (Nat.ne_of_gt hlt)]
                refine ⟨hnearest.earlier hle fun e he hlt' hshared => ?_, hlast⟩
                exact hnone e he hlt' (hshared p hp)
              · subst heq
                rw [if_pos rfl]
                refine ⟨⟨Nat.le_refl n, ?_, fun e he hlt => by omega⟩, hseats, ?_⟩
                · exact presentAt_of_seatOn hlaw (hall rfl)
                · rintro e ⟨⟩
                  exact hall rfl

theorem leapAll_leaps {parts : List Plan} {delimiter : Option Plan}
    (hlaw : ∀ p ∈ parts, Lawful p) {bound : Nat}
    (hbound : parts ≠ [] → ∀ d, (∀ p ∈ parts, p.presentAt d = true) → d ≤ bound) :
    Leaps (leapAll bound (parts.map Cursor.seek)) (Seated Seat parts delimiter)
      (fun d => Seated (SeatOn d) parts delimiter)
      (fun d => parts ≠ [] ∧ ∀ p ∈ parts, p.presentAt d = true) := by
  intro crew n hn hcrew
  unfold leapAll
  split
  · next hempty =>
      have hnil : parts = [] := by simpa using hempty
      exact ⟨fun e _ hall => hall.1 hnil, hcrew⟩
  · next hsome =>
      have hne : parts ≠ [] := by simpa using hsome
      obtain ⟨hnearest, hseats, hon⟩ :=
        agree_spec hlaw (hbound hne) hn (by omega : bound < (bound + 2) + n) hcrew.parts
      dsimp only
      refine ⟨hnearest.congr fun e _ => ⟨fun hall => ⟨hne, hall⟩, fun hall => hall.2⟩, ?_⟩
      split
      · next d hd => exact ⟨hon d hd, hcrew.delimiter⟩
      · exact ⟨hseats, hcrew.delimiter⟩

/-! ## Leaps of one part -/

/-- The cursor of a first part on a document. -/
def OnFirst (kept dropped : Plan) (d : Nat) (crew : Crew Cursor) : Prop :=
  Seated Seat [kept, dropped] none crew ∧ ∀ part ∈ crew.parts.head?, part.1.document = some d

theorem leapFirst_leaps {kept dropped : Plan} (hlaw : Lawful kept) :
    Leaps (leapFirst (Cursor.seek kept)) (Seated Seat [kept, dropped] none) (OnFirst kept dropped)
      (fun d => kept.presentAt d = true) := by
  rintro ⟨cursors, target, delimiter⟩ n hn ⟨hparts, hdelimiter⟩
  cases hparts with
  | @cons _ part _ rest hfirst hrest =>
      obtain ⟨c, standing⟩ := part
      have hnearest := hlaw.nearest hfirst n
      rw [Nat.max_eq_left hn] at hnearest
      have hseats : List.Forall₂ Seat [kept, dropped] ((Cursor.seek kept c n, standing) :: rest) :=
        List.Forall₂.cons (hfirst.seek n) hrest
      refine ⟨hnearest, ?_⟩
      unfold leapFirst
      dsimp only
      split
      · next d hd =>
          refine ⟨⟨hseats, hdelimiter⟩, fun part hpart => ?_⟩
          cases hpart
          exact hd
      · exact ⟨hseats, hdelimiter⟩

end Crew

end Concordance
