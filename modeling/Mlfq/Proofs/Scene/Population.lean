import Mlfq.Proofs.Scene.Basic

/-! # Who is where

The population of a scene is the multiset of all records that are somewhere. Here is how it is
gathered from the queues, and how a queue that is replaced or removed shows in it. -/

namespace Mlfq

open Queue (cores)

/-! ## Gathering -/

/-- A queue among others, and the others together. -/
theorem exists_cores_flatten_set {qs : List Queue} {i : Nat} {q : Queue} (h : qs[i]? = some q) :
    ∃ rest, cores qs.flatten = cores q + rest ∧
      ∀ q', cores (qs.set i q').flatten = cores q' + rest := by
  induction qs generalizing i with
  | nil => simp at h
  | cons r qs ih =>
    cases i with
    | zero =>
      cases h
      exact ⟨cores qs.flatten, Queue.cores_append _ _, fun q' => Queue.cores_append _ _⟩
    | succ i =>
      obtain ⟨rest, hq, hset⟩ := ih h
      refine ⟨cores r + rest, ?_, ?_⟩
      · rw [List.flatten_cons, Queue.cores_append, hq, add_left_comm]
      · intro q'
        rw [List.set_cons_succ, List.flatten_cons, Queue.cores_append, hset, add_left_comm]

namespace Registry

variable {κ α : Type} [DecidableEq κ]

/-- A key that is there splits the entries. -/
theorem exists_split {r : Registry κ α} {k : κ} {a : α} (nodup : r.keys.Nodup)
    (h : r.get? k = some a) : ∃ before after, r.entries = before ++ (k, a) :: after ∧
      ∀ e ∈ before ++ after, e.1 ≠ k := by
  obtain ⟨es⟩ := r
  simp only [get?, keys] at *
  induction es with
  | nil => simp at h
  | cons e es ih =>
    rw [List.map_cons, List.nodup_cons] at nodup
    rw [lookup_cons] at h
    split at h
    case isTrue here =>
      cases h
      refine ⟨[], es, by rw [here]; rfl, fun e' he' same => nodup.1 ?_⟩
      exact List.mem_map.2 ⟨e', he', same.trans here⟩
    case isFalse elsewhere =>
      obtain ⟨before, after, hsplit, hne⟩ := ih nodup.2 h
      refine ⟨e :: before, after, by rw [hsplit]; rfl, fun e' he' => ?_⟩
      rcases List.mem_cons.1 he' with rfl | he'
      · exact fun same => elsewhere same.symm
      · exact hne e' he'

/-- What is gathered under one key, and what is gathered under the others. -/
theorem exists_cores_values {r : Registry κ α} {k : κ} {a : α} (nodup : r.keys.Nodup)
    (h : r.get? k = some a) (f : α → Queue) : ∃ rest,
      cores (r.values.flatMap f) = cores (f a) + rest ∧
      (∀ b, cores ((r.set k b).values.flatMap f) = cores (f b) + rest) ∧
      cores ((r.erase k).values.flatMap f) = rest := by
  obtain ⟨before, after, hsplit, hne⟩ := exists_split nodup h
  have kept : ∀ es : List (κ × α), (∀ e ∈ es, e.1 ≠ k) → ∀ b,
      (es.map fun e => if e.1 = k then (k, b) else e) = es ∧
      (es.filter fun e => e.1 ≠ k) = es := by
    intro es hes b
    refine ⟨?_, List.filter_eq_self.2 fun e he => by simpa using hes e he⟩
    calc (es.map fun e => if e.1 = k then (k, b) else e)
        = es.map id := List.map_congr_left fun e he => if_neg (hes e he)
      _ = es := List.map_id es
  have hbefore := kept before fun e he => hne e (List.mem_append_left _ he)
  have hafter := kept after fun e he => hne e (List.mem_append_right _ he)
  have gathered : ∀ b, cores ((before ++ (k, b) :: after).flatMap fun e => f e.2) =
      cores (f b) + cores ((before ++ after).flatMap fun e => f e.2) := by
    intro b
    rw [List.flatMap_append, List.flatMap_append, List.flatMap_cons, Queue.cores_append,
      Queue.cores_append, Queue.cores_append, add_left_comm]
  refine ⟨cores ((before ++ after).flatMap fun e => f e.2), ?_, ?_, ?_⟩
  · rw [values, List.flatMap_map, hsplit, gathered]
  · intro b
    rw [values, List.flatMap_map, set, hsplit, List.map_append, List.map_cons, (hbefore b).1,
      (hafter b).1, if_pos rfl, gathered]
  · rw [values, List.flatMap_map, erase, hsplit, List.filter_append,
      List.filter_cons_of_neg (by simp), (hbefore a).2, (hafter a).2]

theorem mem_keys_of_get? {r : Registry κ α} {k : κ} {a : α} (h : r.get? k = some a) :
    k ∈ r.keys := by
  by_contra absent
  rw [get?_eq_none_iff.2 absent] at h
  cases h

/-- What is there after a key went was there before. -/
theorem get?_of_erase {r : Registry κ α} {k l : κ} {a : α} (h : (r.erase k).get? l = some a) :
    r.get? l = some a := by
  rw [get?_erase] at h
  split at h
  · cases h
  · exact h

/-- Where a value is replaced by one that `f` does not tell from it, `f` sees nothing new. -/
theorem exists_of_set {β : Type} (f : α → β) {r : Registry κ α} {k l : κ} {a a' b : α}
    (found : r.get? k = some a) (same : f a' = f a) (h : (r.set k a').get? l = some b) :
    ∃ c, r.get? l = some c ∧ f b = f c := by
  rw [get?_set (mem_keys_of_get? found)] at h
  split at h
  case isTrue here =>
    cases h
    exact ⟨a, here ▸ found, same⟩
  case isFalse => exact ⟨b, h, rfl⟩

theorem exists_get?_of_mem_keys {r : Registry κ α} {k : κ} (h : k ∈ r.keys) :
    ∃ a, r.get? k = some a := by
  cases hk : r.get? k with
  | none => exact absurd h (get?_eq_none_iff.1 hk)
  | some a => exact ⟨a, rfl⟩

theorem get?_of_mem_entries {r : Registry κ α} {k : κ} {a : α} (nodup : r.keys.Nodup)
    (h : (k, a) ∈ r.entries) : r.get? k = some a := by
  obtain ⟨b, hb⟩ := exists_get?_of_mem_keys (List.mem_map.2 ⟨(k, a), h, rfl⟩)
  obtain ⟨before, after, hsplit, hne⟩ := exists_split nodup hb
  rw [hsplit, List.mem_append, List.mem_cons, or_left_comm] at h
  rcases h with same | other
  · rw [hb, (Prod.mk.inj same).2]
  · exact absurd rfl (hne (k, a) (List.mem_append.2 other))

theorem mem_values_iff {r : Registry κ α} (nodup : r.keys.Nodup) {a : α} :
    a ∈ r.values ↔ ∃ k, r.get? k = some a := by
  constructor
  · intro h
    obtain ⟨e, he, rfl⟩ := List.mem_map.1 h
    exact ⟨e.1, get?_of_mem_entries nodup he⟩
  · rintro ⟨k, hk⟩
    obtain ⟨before, after, hsplit, -⟩ := exists_split nodup hk
    rw [values, hsplit, List.map_append, List.map_cons]
    exact List.mem_append_right _ List.mem_cons_self

end Registry

/-! ## Keys -/

/-- The ids of the locks are all different and were all handed out, and every lock is kept under
its own. -/
structure LockTable.Tidy (t : LockTable) : Prop where
  nodup : t.locks.keys.Nodup
  lt : ∀ id ∈ t.locks.keys, id.num < t.nextId
  id_eq : ∀ id l, t.get? id = some l → l.id = id

namespace LockTable.Tidy

variable {t : LockTable}

theorem fresh (h : t.Tidy) : (⟨t.nextId⟩ : LockId) ∉ t.locks.keys :=
  fun mem => Nat.lt_irrefl _ (h.lt _ mem)

theorem reserve (h : t.Tidy) : t.reserve.2.Tidy :=
  ⟨h.nodup, fun id mem => Nat.lt_succ_of_lt (h.lt id mem), h.id_eq⟩

theorem create (h : t.Tidy) : t.create.2.Tidy := by
  refine ⟨?_, ?_, ?_⟩
  · rw [LockTable.create, Registry.keys_add, ← List.concat_eq_append]
    exact h.nodup.concat h.fresh
  · intro id mem
    simp only [LockTable.create, Registry.keys_add, List.mem_append, List.mem_singleton] at mem ⊢
    rcases mem with mem | rfl
    · exact Nat.lt_succ_of_lt (h.lt id mem)
    · exact Nat.lt_succ_self _
  · intro id l found
    simp only [LockTable.create, LockTable.get?, Registry.get?_add h.fresh] at found
    split at found
    case isTrue new =>
      cases found
      exact new.symm
    case isFalse => exact h.id_eq id l found

theorem set (h : t.Tidy) {l l' : Lock} {id : LockId} (found : t.get? id = some l)
    (same : l'.id = l.id) : (t.set l').Tidy := by
  have own : l'.id = id := same.trans (h.id_eq id l found)
  refine ⟨?_, ?_, ?_⟩
  · rw [LockTable.set, Registry.keys_set]
    exact h.nodup
  · intro k mem
    rw [LockTable.set, Registry.keys_set] at mem
    exact h.lt k mem
  · intro k m hm
    rw [LockTable.set, LockTable.get?, own,
      Registry.get?_set (Registry.mem_keys_of_get? found)] at hm
    split at hm
    case isTrue here =>
      cases hm
      rw [own, here]
    case isFalse => exact h.id_eq k m hm

theorem erase (h : t.Tidy) (id : LockId) : (t.erase id).Tidy := by
  refine ⟨?_, ?_, ?_⟩
  · rw [LockTable.erase, Registry.keys_erase]
    exact h.nodup.filter _
  · intro k mem
    rw [LockTable.erase, Registry.keys_erase] at mem
    exact h.lt k (List.mem_filter.1 mem).1
  · intro k l found
    exact h.id_eq k l (Registry.get?_of_erase found)

theorem get?_create (h : t.Tidy) (k : LockId) :
    t.create.2.get? k = if k = t.create.1 then some { id := t.create.1 } else t.get? k :=
  Registry.get?_add h.fresh _ k

theorem get?_set (h : t.Tidy) {l l' : Lock} {id : LockId} (found : t.get? id = some l)
    (same : l'.id = l.id) (k : LockId) :
    (t.set l').get? k = if k = id then some l' else t.get? k := by
  rw [LockTable.set, LockTable.get?, same, h.id_eq id l found,
    Registry.get?_set (Registry.mem_keys_of_get? found)]
  rfl

end LockTable.Tidy

namespace Scene

/-- No lock and no channel is kept twice. -/
structure Tidy (s : Scene) : Prop where
  locks : s.locks.Tidy
  channels : s.channels.keys.Nodup
  channels_lt : ∀ id ∈ s.channels.keys, id.num < s.nextChannel

namespace Tidy

variable {s s' : Scene}

theorem fresh (h : s.Tidy) : (⟨s.nextChannel⟩ : ChannelId) ∉ s.channels.keys :=
  fun mem => Nat.lt_irrefl _ (h.channels_lt _ mem)

theorem locks_dropLock (h : s.locks.Tidy) (id : LockId) : (s.dropLock id).locks.Tidy := by
  unfold dropLock
  split
  · exact h
  · exact h.erase id

theorem step (h : s.Tidy) (step : Step s s') : s'.Tidy := by
  cases step with
  | scan | single | goOn | request | complete | terminate | retire | drop =>
    exact ⟨h.locks, h.channels, h.channels_lt⟩
  | mutexPair => exact ⟨h.locks.create.create, h.channels, h.channels_lt⟩
  | rendezvousPair =>
    refine ⟨h.locks.reserve, ?_, ?_⟩
    · rw [Registry.keys_add, ← List.concat_eq_append]
      exact h.channels.concat h.fresh
    · intro id mem
      rw [Registry.keys_add, List.mem_append, List.mem_singleton] at mem
      rcases mem with mem | rfl
      · exact Nat.lt_succ_of_lt (h.channels_lt id mem)
      · exact Nat.lt_succ_self _
  | table runs request found serves =>
    exact ⟨h.locks.set found serves.id_eq, h.channels, h.channels_lt⟩
  | channel | leave =>
    refine ⟨h.locks, ?_, ?_⟩
    · rw [Registry.keys_set]
      exact h.channels
    · intro id mem
      rw [Registry.keys_set] at mem
      exact h.channels_lt id mem
  | dissolve zombie retire =>
    refine ⟨locks_dropLock (locks_dropLock ?_ _) _, ?_, ?_⟩
    · exact h.locks
    · rw [channels_dropLock, channels_dropLock]
      exact h.channels
    · rw [channels_dropLock, channels_dropLock, nextChannel_dropLock, nextChannel_dropLock]
      exact h.channels_lt
  | close =>
    refine ⟨h.locks, ?_, ?_⟩
    · rw [Registry.keys_erase]
      exact h.channels.filter _
    · intro id mem
      rw [Registry.keys_erase] at mem
      exact h.channels_lt id (List.mem_filter.1 mem).1

theorem steps (h : s.Tidy) (steps : Steps s s') : s'.Tidy := by
  induction steps with
  | refl => exact h
  | tail _ step ih => exact ih.step step

end Tidy
end Scene
end Mlfq
