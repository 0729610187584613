import Mathlib.Data.Nat.Bitwise
import Mlfq.MutexPairs
import Mlfq.Fault

/-! # The members of the pairs in a row

The mutex pairs can be kept as the row of their members, where those of pair `k` have the places
`2 * k` and `2 * k + 1` and a process is found by the place of its record. Every place that is
looked at is there, so that a search, the partner and a retirement are what they are for the
pairs. -/

namespace Mlfq

/-- The members in the order in which the pairs were added. -/
def MutexPairs.members (t : MutexPairs) : List PairMember :=
  t.pairs.flatMap fun q => [q.left, q.right]

/-- A row of members. -/
abbrev MemberRow := List PairMember

namespace MemberRow

variable (row : MemberRow) (pid : Pid)

/-- The member at a place, which has to be there. -/
def entry (i : Nat) : Except Fault PairMember :=
  match row[i]? with
  | some e => .ok e
  | none => .error (.indexOutOfBounds row.length i)

/-- The place of a process. -/
def position? : Option Nat := row.findIdx? (·.pid = pid)

/-- The member that is process `pid`. -/
def search : Except Fault (Option PairMember) :=
  match row.position? pid with
  | none => .ok none
  | some i => do return some (← row.entry i)

/-- The partner of process `pid`. Its place differs in the last bit. -/
def partner : Except Fault (Option Pid) :=
  match row.position? pid with
  | none => .ok none
  | some i => do return some (← row.entry (i ^^^ 1)).pid

/-- Takes the pair that begins at a place out of the row if both its members have gone. -/
def close (base : Nat) : Except Fault (Option (LockId × LockId) × MemberRow) := do
  let left ← row.entry base
  let right ← row.entry (base ^^^ 1)
  if left.retired && right.retired then
    return (some (left.first, left.second), row.take base ++ row.drop (base + 2))
  return (none, row)

/-- Notes that process `pid` has gone. -/
def retire : Except Fault (Option (LockId × LockId) × MemberRow) :=
  match row.position? pid with
  | none => .ok (none, row)
  | some i => do
    let gone ← row.entry i
    MemberRow.close (row.set i { gone with retired := true }) (i - i % 2)

end MemberRow

namespace MutexPairs

variable {pid : Pid}

/-- The members of the pairs in a row, pair by pair. -/
theorem members_append (before : List MutexPair) (q : MutexPair) (after : List MutexPair) :
    (⟨before ++ q :: after⟩ : MutexPairs).members =
      (⟨before⟩ : MutexPairs).members ++ q.left :: q.right :: (⟨after⟩ : MutexPairs).members :=
  List.flatMap_append ..

theorem length_members (t : MutexPairs) : t.members.length = t.size := by
  rw [members, List.length_flatMap, size]
  simp [List.map_const', Nat.mul_comm]

/-- The place of a process that is in pair `q` and in none before it. -/
theorem exists_split (t : MutexPairs) (pid : Pid) :
    (∀ e ∈ t.members, e.pid ≠ pid) ∨ ∃ before q after, t.pairs = before ++ q :: after ∧
      (∀ e ∈ (⟨before⟩ : MutexPairs).members, e.pid ≠ pid) ∧
      (q.left.pid = pid ∨ q.left.pid ≠ pid ∧ q.right.pid = pid) := by
  obtain ⟨pairs⟩ := t
  induction pairs with
  | nil => exact .inl nofun
  | cons q pairs ih =>
    by_cases left : q.left.pid = pid
    · exact .inr ⟨[], q, pairs, rfl, nofun, .inl left⟩
    by_cases right : q.right.pid = pid
    · exact .inr ⟨[], q, pairs, rfl, nofun, .inr ⟨left, right⟩⟩
    have others : ∀ {ps : List MutexPair}, (∀ e ∈ (⟨ps⟩ : MutexPairs).members, e.pid ≠ pid) →
        ∀ e ∈ (⟨q :: ps⟩ : MutexPairs).members, e.pid ≠ pid := by
      intro ps none e he
      rcases List.mem_cons.1 he with rfl | he
      · exact left
      rcases List.mem_cons.1 he with rfl | he
      · exact right
      · exact none e he
    rcases ih with none | ⟨before, r, after, rfl, none, here⟩
    · exact .inl (others none)
    · exact .inr ⟨q :: before, r, after, rfl, others none, here⟩

end MutexPairs

namespace MemberRow

open MutexPairs

variable {row : MemberRow} {pid : Pid}

theorem position?_eq_none (none : ∀ e ∈ row, e.pid ≠ pid) : row.position? pid = .none := by
  rw [position?, List.findIdx?_eq_none_iff]
  exact fun e he => decide_eq_false (none e he)

theorem position?_append {after : MemberRow} {e : PairMember}
    (none : ∀ e ∈ row, e.pid ≠ pid) (own : e.pid = pid) :
    MemberRow.position? (row ++ e :: after) pid = some row.length := by
  rw [position?, List.findIdx?_append, ← position?, position?_eq_none none, List.findIdx?_cons]
  simp [own]

/-- The entries of a pair, behind a row of pairs. -/
theorem entry_pair (row after : MemberRow) (a b : PairMember) :
    MemberRow.entry (row ++ a :: b :: after) row.length = .ok a ∧
      MemberRow.entry (row ++ a :: b :: after) (row.length + 1) = .ok b := by
  constructor <;> simp [entry]

/-- A search looks at a place that is there. -/
theorem search_eq (row : MemberRow) (pid : Pid) :
    row.search pid = .ok (row.find? (·.pid = pid)) := by
  rw [search, List.find?_eq_bind_findIdx?_getElem?, ← position?]
  cases here : row.position? pid with
  | none => rfl
  | some i =>
    obtain ⟨lt, -⟩ := List.findIdx?_eq_some_iff_getElem.1 here
    have found : row[i]? = some row[i] := List.getElem?_eq_getElem lt
    simp only [entry, found, bind, Except.bind, pure, Except.pure, Option.bind_some]

theorem position?_append_cons {after : MemberRow} {a b : PairMember}
    (none : ∀ e ∈ row, e.pid ≠ pid) (ne : a.pid ≠ pid) (own : b.pid = pid) :
    MemberRow.position? (row ++ a :: b :: after) pid = some (row.length + 1) := by
  have none' : ∀ e ∈ row ++ [a], e.pid ≠ pid := by
    intro e he
    rcases List.mem_append.1 he with before | here
    · exact none e before
    · exact List.mem_singleton.1 here ▸ ne
  have found : MemberRow.position? ((row ++ [a]) ++ b :: after) pid = some (row ++ [a]).length :=
    position?_append none' own
  rwa [List.append_assoc, List.length_append] at found

section

variable (none : ∀ e ∈ row, e.pid ≠ pid) (even : row.length % 2 = 0) {a b : PairMember}
  (after : MemberRow)

include none even

theorem partner_left (own : a.pid = pid) :
    MemberRow.partner (row ++ a :: b :: after) pid = .ok (some b.pid) := by
  have next : row.length ^^^ 1 = row.length + 1 := Nat.xor_one_of_even (Nat.even_iff.2 even)
  simp only [partner, position?_append none own, next, (entry_pair row after a b).2, bind,
    Except.bind, pure, Except.pure]

theorem partner_right (ne : a.pid ≠ pid) (own : b.pid = pid) :
    MemberRow.partner (row ++ a :: b :: after) pid = .ok (some a.pid) := by
  have last : (row.length + 1) ^^^ 1 = row.length :=
    Nat.xor_one_of_odd (Nat.odd_iff.2 (by omega))
  simp only [partner, position?_append_cons none ne own, last, (entry_pair row after a b).1,
    bind, Except.bind, pure, Except.pure]

omit none in
/-- A pair goes if both its members have gone. -/
theorem close_append (a b : PairMember) :
    MemberRow.close (row ++ a :: b :: after) row.length =
      .ok (if a.retired && b.retired then (some (a.first, a.second), row ++ after)
        else (.none, row ++ a :: b :: after)) := by
  have next : row.length ^^^ 1 = row.length + 1 := Nat.xor_one_of_even (Nat.even_iff.2 even)
  have rest : (row ++ a :: b :: after).drop (row.length + 2) = after := by simp
  simp only [close, entry_pair, next, bind, Except.bind, pure, Except.pure, List.take_left, rest]
  split <;> rfl

theorem retire_left (own : a.pid = pid) :
    MemberRow.retire (row ++ a :: b :: after) pid =
      .ok (if b.retired then (some (a.first, a.second), row ++ after)
        else (.none, row ++ { a with retired := true } :: b :: after)) := by
  have base : row.length - row.length % 2 = row.length := by omega
  have marked : (row ++ a :: b :: after).set row.length { a with retired := true } =
      row ++ { a with retired := true } :: b :: after := by simp
  simp only [retire, position?_append none own, entry_pair, base, marked, bind, Except.bind,
    close_append even after, Bool.true_and]

theorem retire_right (ne : a.pid ≠ pid) (own : b.pid = pid) :
    MemberRow.retire (row ++ a :: b :: after) pid =
      .ok (if a.retired then (some (a.first, a.second), row ++ after)
        else (.none, row ++ a :: { b with retired := true } :: after)) := by
  have base : row.length + 1 - (row.length + 1) % 2 = row.length := by omega
  have marked : (row ++ a :: b :: after).set (row.length + 1) { b with retired := true } =
      row ++ a :: { b with retired := true } :: after := by simp
  simp only [retire, position?_append_cons none ne own, entry_pair, base, marked, bind, Except.bind,
    close_append even after, Bool.and_true]

end
end MemberRow

namespace MutexPairs

open MemberRow

theorem search_members (t : MutexPairs) (pid : Pid) :
    MemberRow.search t.members pid = .ok (t.find? pid) := by
  have same : t.find? pid = t.members.find? (·.pid = pid) := by
    rw [find?, members, List.find?_flatMap]
    congr 1
    funext q
    by_cases left : q.left.pid = pid <;> by_cases right : q.right.pid = pid <;>
      simp [MutexPair.member?, left, right]
  rw [search_eq, same]

theorem even_length_members (t : MutexPairs) : t.members.length % 2 = 0 := by
  rw [length_members, size]
  omega

/-- Who is in none of the pairs has no partner there. -/
theorem findSome?_partner?_eq_none {pairs : List MutexPair}
    (none : ∀ e ∈ (⟨pairs⟩ : MutexPairs).members, e.pid ≠ pid) :
    pairs.findSome? (·.partner? pid) = .none := by
  rw [List.findSome?_eq_none_iff]
  intro q hq
  have left := none q.left (List.mem_flatMap.2 ⟨q, hq, by simp⟩)
  have right := none q.right (List.mem_flatMap.2 ⟨q, hq, by simp⟩)
  simp [MutexPair.partner?, left, right]

theorem partner_members (t : MutexPairs) (pid : Pid) :
    MemberRow.partner t.members pid = .ok (t.partner? pid) := by
  rcases t.exists_split pid with none | ⟨before, q, after, split, none, own⟩
  · rw [partner?, findSome?_partner?_eq_none none, partner, position?_eq_none none]
  · have partner : t.partner? pid = q.partner? pid := by
      have own : q.partner? pid ≠ .none := by grind [MutexPair.partner?]
      obtain ⟨other, found⟩ := Option.ne_none_iff_exists'.1 own
      rw [partner?, split, List.findSome?_append, findSome?_partner?_eq_none none,
        List.findSome?_cons, found]
      rfl
    have row : t.members = _ := (congrArg (fun pairs => members ⟨pairs⟩) split).trans
      (members_append before q after)
    have even := even_length_members ⟨before⟩
    rw [row, partner]
    rcases own with left | ⟨ne, right⟩
    · rw [partner_left none even _ left, MutexPair.partner?, if_pos left]
    · rw [partner_right none even _ ne right, MutexPair.partner?, if_neg ne, if_pos right]

/-- Pairs of which the process is no member are left alone. -/
theorem retire_append {before : List MutexPair}
    (none : ∀ e ∈ (⟨before⟩ : MutexPairs).members, e.pid ≠ pid) (rest : List MutexPair) :
    retire pid (before ++ rest) = ((retire pid rest).1, before ++ (retire pid rest).2) := by
  induction before with
  | nil => rfl
  | cons q before ih =>
    have left : q.left.pid ≠ pid := none q.left List.mem_cons_self
    have right : q.right.pid ≠ pid := none q.right (.tail _ (.head _))
    have other : q.retire? pid = .none := by
      rw [MutexPair.retire?, if_neg left, if_neg right]
    have others := ih fun e he => none e (.tail _ (.tail _ he))
    rw [List.cons_append, retire, other]
    simp only [others]
    rfl

theorem retire_members (t : MutexPairs) (pid : Pid) :
    MemberRow.retire t.members pid =
      .ok ((retire pid t.pairs).1, (⟨(retire pid t.pairs).2⟩ : MutexPairs).members) := by
  rcases t.exists_split pid with none | ⟨before, q, after, split, none, own⟩
  · have alone := retire_append none []
    rw [List.append_nil] at alone
    rw [alone, MemberRow.retire, position?_eq_none none, retire, List.append_nil]
  · have row : t.members = _ := (congrArg (fun pairs => members ⟨pairs⟩) split).trans
      (members_append before q after)
    have even := even_length_members ⟨before⟩
    rw [row, split, retire_append none]
    rcases own with left | ⟨ne, right⟩
    · rw [retire_left none even _ left, retire, MutexPair.retire?, if_pos left]
      simp only [MutexPair.isAbandoned, Bool.true_and]
      split <;> simp [members]
    · rw [retire_right none even _ ne right, retire, MutexPair.retire?, if_neg ne, if_pos right]
      simp only [MutexPair.isAbandoned, Bool.and_true]
      split <;> simp [members]

end MutexPairs
end Mlfq
