import Concordance.SortedMap

/-!
# Access lists

For every user the documents that the user may see. A user without documents has no entry.
-/

namespace Concordance

/-- The documents that each user may see. -/
structure AccessLists where
  byUser : SortedMap String (SortedMap Nat Unit) := ∅
  deriving DecidableEq, Inhabited

namespace AccessLists

instance : EmptyCollection AccessLists := ⟨{}⟩

/-- Lets users see a document. -/
def grant (a : AccessLists) (number : Nat) (users : List String) : AccessLists :=
  ⟨users.foldl (fun m user => m.insert user ((m.getD user ∅).insert number ())) a.byUser⟩

/-- Takes a document away from one user; a user left without documents loses the entry. -/
def revokeOne (number : Nat) (lists : SortedMap String (SortedMap Nat Unit)) (user : String) :
    SortedMap String (SortedMap Nat Unit) :=
  match lists.get? user with
  | none => lists
  | some documents =>
    let left := documents.erase number
    if left.isEmpty then lists.erase user else lists.insert user left

/-- Takes a document away from users. -/
def revoke (a : AccessLists) (number : Nat) (users : List String) : AccessLists :=
  ⟨users.foldl (revokeOne number) a.byUser⟩

/-- Drops a user; answers the documents the user could see. -/
def removeUser (a : AccessLists) (user : String) : List Nat × AccessLists :=
  ((a.byUser.getD user ∅).keys, ⟨a.byUser.erase user⟩)

/-- The documents of those of the users who have an entry, one list a user. -/
def listsFor (a : AccessLists) (users : List String) : List (List Nat) :=
  users.filterMap fun user => (a.byUser.get? user).map (·.keys)

/-- The documents that at least one of the users may see, ascending. -/
def documentsFor (a : AccessLists) (users : List String) : List Nat :=
  ascending (a.listsFor users).flatten

/-- The users with an entry, ascending. -/
def users (a : AccessLists) : List String := a.byUser.keys

end AccessLists

end Concordance
