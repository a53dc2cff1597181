import Mathlib.Algebra.BigOperators.Group.List.Basic
import Mathlib.Data.List.Nodup
import Mathlib.Data.List.Perm.Basic
import Mathlib.Tactic.Common
import Mathlib.Tactic.Ring

/-!
# Least-recently-used caches

A program that takes its caches from a library sees their operations only. `Interface` is such
a library: the caches, the operations, and the laws that a program relies on. A lookup returns
only what was put and changes the order of the entries only, storing keeps or drops what was
there, and the two removals take out what they return. No law says which entry a full cache
drops or which one was used least recently, so what is proved with them holds for every order.

The first part draws from the laws what an invariant of the entries needs (`mem_of_get`,
`mem_entries_get`, `mem_entries_put`), what the keys have (`peek`), and what the values weigh
together (`total`), for a program that keeps account of the size. The second part is the cache
that keeps its entries in a list, the most recently used one first; `byRecency` is the library
of these caches.
-/

namespace LruCache

/-- A library of caches: its operations, and what a program relies on. -/
structure Interface where
  /-- The caches of a type of keys and a type of values. -/
  Cache : Type → Type → Type
  /-- A cache without entries, which holds at most so many if a number is given. -/
  new {κ υ : Type} : Option Nat → Cache κ υ
  capacity {κ υ : Type} : Cache κ υ → Option Nat
  entries {κ υ : Type} : Cache κ υ → List (κ × υ)
  /-- The value of a key, which counts as used. -/
  get {κ υ : Type} [DecidableEq κ] : Cache κ υ → κ → Option υ × Cache κ υ
  put {κ υ : Type} [DecidableEq κ] : Cache κ υ → κ → υ → Cache κ υ
  /-- The value of a key, whose entry is removed. -/
  pop {κ υ : Type} [DecidableEq κ] : Cache κ υ → κ → Option υ × Cache κ υ
  /-- The least recently used entry, which is removed. -/
  popLru {κ υ : Type} : Cache κ υ → Option (κ × υ) × Cache κ υ
  clear {κ υ : Type} : Cache κ υ → Cache κ υ
  /-- Every key has one entry. -/
  nodup_keys {κ υ : Type} (cache : Cache κ υ) : ((entries cache).map Prod.fst).Nodup
  entries_new {κ υ : Type} (limit : Option Nat) : entries (new limit : Cache κ υ) = []
  entries_clear {κ υ : Type} (cache : Cache κ υ) : entries (clear cache) = []
  get_eq_some {κ υ : Type} [DecidableEq κ] (cache : Cache κ υ) (key : κ) (value : υ) :
    (get cache key).1 = some value ↔ (key, value) ∈ entries cache
  /-- A lookup changes the order of the entries only. -/
  entries_get {κ υ : Type} [DecidableEq κ] (cache : Cache κ υ) (key : κ) :
    (entries (get cache key).2).Perm (entries cache)
  /-- Storing keeps or drops what was there. -/
  entries_put {κ υ : Type} [DecidableEq κ] (cache : Cache κ υ) (key : κ) (value : υ) :
    ∀ entry ∈ entries (put cache key value),
      entry = (key, value) ∨ entry ∈ entries cache ∧ entry.1 ≠ key
  /-- Without a bound, storing a new key drops nothing. -/
  entries_put_new {κ υ : Type} [DecidableEq κ] (cache : Cache κ υ) (key : κ) (value : υ) :
    capacity cache = none → (∀ entry ∈ entries cache, entry.1 ≠ key) →
      (entries (put cache key value)).Perm ((key, value) :: entries cache)
  pop_eq_some {κ υ : Type} [DecidableEq κ] (cache : Cache κ υ) (key : κ) (value : υ) :
    (pop cache key).1 = some value ↔ (key, value) ∈ entries cache
  mem_entries_pop {κ υ : Type} [DecidableEq κ] (cache : Cache κ υ) (key : κ) (entry : κ × υ) :
    entry ∈ entries (pop cache key).2 ↔ entry ∈ entries cache ∧ entry.1 ≠ key
  entries_popLru {κ υ : Type} (cache : Cache κ υ) :
    (entries cache).Perm ((popLru cache).1.toList ++ entries (popLru cache).2)
  popLru_eq_none {κ υ : Type} (cache : Cache κ υ) :
    (popLru cache).1 = none → entries cache = []
  capacity_new {κ υ : Type} (limit : Option Nat) : capacity (new limit : Cache κ υ) = limit
  capacity_get {κ υ : Type} [DecidableEq κ] (cache : Cache κ υ) (key : κ) :
    capacity (get cache key).2 = capacity cache
  capacity_put {κ υ : Type} [DecidableEq κ] (cache : Cache κ υ) (key : κ) (value : υ) :
    capacity (put cache key value) = capacity cache
  capacity_pop {κ υ : Type} [DecidableEq κ] (cache : Cache κ υ) (key : κ) :
    capacity (pop cache key).2 = capacity cache
  capacity_popLru {κ υ : Type} (cache : Cache κ υ) :
    capacity (popLru cache).2 = capacity cache

namespace Interface

variable {lru : Interface} {κ υ : Type}

/-! ## The entries -/

section Entries

variable [DecidableEq κ] {cache : lru.Cache κ υ} {key : κ} {value : υ} {entry : κ × υ}

theorem mem_of_get (h : (lru.get cache key).1 = some value) :
    (key, value) ∈ lru.entries cache := (lru.get_eq_some cache key value).mp h

theorem mem_entries_get (h : entry ∈ lru.entries (lru.get cache key).2) :
    entry ∈ lru.entries cache := (lru.entries_get cache key).mem_iff.mp h

theorem mem_entries_put (h : entry ∈ lru.entries (lru.put cache key value)) :
    entry = (key, value) ∨ entry ∈ lru.entries cache :=
  (lru.entries_put cache key value entry h).imp_right And.left

omit [DecidableEq κ] in
theorem not_mem_new (limit : Option Nat) (entry : κ × υ) : entry ∉ lru.entries (lru.new limit) := by
  rw [lru.entries_new]
  exact List.not_mem_nil

omit [DecidableEq κ] in
theorem not_mem_clear (entry : κ × υ) : entry ∉ lru.entries (lru.clear cache) := by
  rw [lru.entries_clear]
  exact List.not_mem_nil

omit [DecidableEq κ] in
theorem mem_entries_popLru (h : entry ∈ lru.entries (lru.popLru cache).2) :
    entry ∈ lru.entries cache :=
  (lru.entries_popLru cache).mem_iff.mpr (List.mem_append_right _ h)

omit [DecidableEq κ] in
theorem nodup_entries (cache : lru.Cache κ υ) : (lru.entries cache).Nodup :=
  (lru.nodup_keys cache).of_map

omit [DecidableEq κ] in
/-- Two entries of one key are the same. -/
theorem value_unique {value' : υ} (h : (key, value) ∈ lru.entries cache)
    (h' : (key, value') ∈ lru.entries cache) : value' = value :=
  congrArg Prod.snd (List.inj_on_of_nodup_map (lru.nodup_keys cache) h' h rfl)

end Entries

/-! ## What the keys have -/

section Keys

variable [DecidableEq κ] {cache : lru.Cache κ υ} {key key' : κ} {value : υ}

/-- The value that a key has in the cache. -/
def peek (lru : Interface) (cache : lru.Cache κ υ) (key : κ) : Option υ := (lru.get cache key).1

theorem peek_eq_some : lru.peek cache key = some value ↔ (key, value) ∈ lru.entries cache :=
  lru.get_eq_some cache key value

/-- Looking a key up changes the value of none. -/
theorem peek_get : lru.peek (lru.get cache key).2 key' = lru.peek cache key' :=
  Option.ext fun _ => by rw [peek_eq_some, peek_eq_some, (lru.entries_get cache key).mem_iff]

theorem peek_pop_self : lru.peek (lru.pop cache key).2 key = none := by
  refine Option.eq_none_iff_forall_ne_some.mpr fun value hvalue => ?_
  exact ((lru.mem_entries_pop cache key _).mp (peek_eq_some.mp hvalue)).2 rfl

theorem peek_of_peek_pop (h : lru.peek (lru.pop cache key).2 key' = some value) :
    lru.peek cache key' = some value :=
  peek_eq_some.mpr ((lru.mem_entries_pop cache key _).mp (peek_eq_some.mp h)).1

theorem peek_of_peek_popLru (h : lru.peek (lru.popLru cache).2 key = some value) :
    lru.peek cache key = some value :=
  peek_eq_some.mpr (mem_entries_popLru (peek_eq_some.mp h))

/-- A key has what was put last under it, and the other keys what they had. -/
theorem peek_of_peek_put {value' : υ} (h : lru.peek (lru.put cache key value) key' = some value') :
    if key' = key then value' = value else lru.peek cache key' = some value' := by
  rcases lru.entries_put cache key value _ (peek_eq_some.mp h) with heq | ⟨hold, hne⟩
  · obtain ⟨hkey, hvalue⟩ := Prod.mk.inj heq
    rw [if_pos hkey]
    exact hvalue
  · rw [if_neg hne]
    exact peek_eq_some.mpr hold

end Keys

/-! ## What the values weigh -/

section Weights

def total (lru : Interface) (cache : lru.Cache κ υ) (size : υ → Nat) : Nat :=
  ((lru.entries cache).map fun entry => size entry.2).sum

variable {cache : lru.Cache κ υ} {key : κ} {value : υ} {size : υ → Nat}

theorem total_new (limit : Option Nat) : lru.total (lru.new limit : lru.Cache κ υ) size = 0 := by
  rw [total, lru.entries_new]
  rfl

theorem total_of_perm {cache' : lru.Cache κ υ} (h : (lru.entries cache').Perm (lru.entries cache)) :
    lru.total cache' size = lru.total cache size := (h.map _).sum_nat

theorem total_get [DecidableEq κ] (key : κ) :
    lru.total (lru.get cache key).2 size = lru.total cache size :=
  total_of_perm (lru.entries_get cache key)

/-- The entry of a key and those of the others are all entries. -/
theorem perm_cons_pop [DecidableEq κ] (h : (key, value) ∈ lru.entries cache) :
    ((key, value) :: lru.entries (lru.pop cache key).2).Perm (lru.entries cache) := by
  have hgone : (key, value) ∉ lru.entries (lru.pop cache key).2 := fun hmem =>
    ((lru.mem_entries_pop cache key _).mp hmem).2 rfl
  refine (List.perm_ext_iff_of_nodup (List.nodup_cons.mpr ⟨hgone, nodup_entries _⟩)
    (nodup_entries cache)).mpr fun entry => ?_
  rw [List.mem_cons, lru.mem_entries_pop]
  constructor
  · rintro (rfl | ⟨hmem, -⟩)
    · exact h
    · exact hmem
  · intro hmem
    by_cases hkey : entry.1 = key
    · exact .inl (Prod.ext hkey (value_unique h (hkey ▸ hmem)))
    · exact .inr ⟨hmem, hkey⟩

/-- What a key has and what the others have weigh as much as all together. -/
theorem total_pop [DecidableEq κ] (cache : lru.Cache κ υ) (key : κ) (size : υ → Nat) :
    ((lru.pop cache key).1.map size).getD 0 + lru.total (lru.pop cache key).2 size =
      lru.total cache size := by
  cases hfound : (lru.pop cache key).1 with
  | none =>
    have hperm : (lru.entries (lru.pop cache key).2).Perm (lru.entries cache) := by
      refine (List.perm_ext_iff_of_nodup (nodup_entries _) (nodup_entries cache)).mpr
        fun entry => ?_
      rw [lru.mem_entries_pop]
      refine ⟨And.left, fun hmem => ⟨hmem, ?_⟩⟩
      rintro rfl
      rw [(lru.pop_eq_some cache entry.1 entry.2).mpr hmem] at hfound
      cases hfound
    exact (Nat.zero_add _).trans (total_of_perm hperm)
  | some value =>
    have hsum := ((perm_cons_pop ((lru.pop_eq_some cache key value).mp hfound)).map
      fun entry => size entry.2).sum_nat
    rw [List.map_cons, List.sum_cons] at hsum
    exact hsum

theorem total_put [DecidableEq κ] (hunbounded : lru.capacity cache = none)
    (hnew : lru.peek cache key = none) :
    lru.total (lru.put cache key value) size = size value + lru.total cache size := by
  have hkeys : ∀ entry ∈ lru.entries cache, entry.1 ≠ key := by
    rintro entry hmem rfl
    rw [peek_eq_some.mpr hmem] at hnew
    cases hnew
  have hsum := ((lru.entries_put_new cache key value hunbounded hkeys).map
    fun entry => size entry.2).sum_nat
  rw [List.map_cons, List.sum_cons] at hsum
  exact hsum

theorem perm_cons_popLru {entry : κ × υ} (h : (lru.popLru cache).1 = some entry) :
    (lru.entries cache).Perm (entry :: lru.entries (lru.popLru cache).2) := by
  have hperm := lru.entries_popLru cache
  rw [h] at hperm
  exact hperm

theorem total_popLru {entry : κ × υ} (h : (lru.popLru cache).1 = some entry) :
    size entry.2 + lru.total (lru.popLru cache).2 size = lru.total cache size := by
  have hsum := ((perm_cons_popLru h).map fun entry => size entry.2).sum_nat
  rw [List.map_cons, List.sum_cons] at hsum
  exact hsum.symm

theorem length_popLru {entry : κ × υ} (h : (lru.popLru cache).1 = some entry) :
    (lru.entries cache).length = (lru.entries (lru.popLru cache).2).length + 1 :=
  (perm_cons_popLru h).length_eq

end Weights

end Interface

/-! ## Entries in the order of their use -/

/-- The entries, the most recently used one first, and their number if it is bounded. -/
structure Recency (κ υ : Type) where
  entries : List (κ × υ)
  capacity : Option Nat
  nodup_keys : (entries.map Prod.fst).Nodup

namespace Recency

variable {κ υ : Type}

def new (limit : Option Nat) : Recency κ υ := ⟨[], limit, List.nodup_nil⟩

variable (cache : Recency κ υ)

/-- Some of the entries, in the same order. -/
def restrict (entries : List (κ × υ)) (h : entries.Sublist cache.entries) : Recency κ υ :=
  ⟨entries, cache.capacity, cache.nodup_keys.sublist (h.map _)⟩

def popLru : Option (κ × υ) × Recency κ υ :=
  (cache.entries.getLast?, cache.restrict cache.entries.dropLast (List.dropLast_sublist _))

def clear : Recency κ υ := cache.restrict [] (List.nil_sublist _)

variable [DecidableEq κ] (key : κ) (value : υ)

def without : Recency κ υ :=
  cache.restrict (cache.entries.filter (·.1 ≠ key)) List.filter_sublist

def find : Option υ := (cache.entries.find? (·.1 = key)).map Prod.snd

variable {cache key value}

theorem mem_without {entry : κ × υ} :
    entry ∈ (cache.without key).entries ↔ entry ∈ cache.entries ∧ entry.1 ≠ key :=
  List.mem_filter.trans (and_congr_right fun _ => decide_eq_true_iff)

theorem find_eq_some : cache.find key = some value ↔ (key, value) ∈ cache.entries := by
  unfold find
  constructor
  · intro h
    obtain ⟨entry, hentry, rfl⟩ := Option.map_eq_some_iff.mp h
    have hkey : entry.1 = key := by simpa using List.find?_some hentry
    rw [← hkey]
    exact List.mem_of_find?_eq_some hentry
  · intro h
    cases hfound : cache.entries.find? (·.1 = key) with
    | none => exact absurd (decide_eq_true rfl) (List.find?_eq_none.mp hfound _ h)
    | some entry =>
      have hkey : entry.1 = key := by simpa using List.find?_some hfound
      have hsame := List.inj_on_of_nodup_map cache.nodup_keys
        (List.mem_of_find?_eq_some hfound) h hkey
      rw [hsame]
      rfl

theorem nodup_cons_without :
    (((key, value) :: (cache.without key).entries).map Prod.fst).Nodup := by
  refine List.nodup_cons.mpr ⟨fun hmem => ?_, (cache.without key).nodup_keys⟩
  obtain ⟨entry, hentry, hkey⟩ := List.mem_map.mp hmem
  exact (mem_without.mp hentry).2 hkey

variable (cache key value)

/-- The entry in front of those of the other keys. -/
def toFront : Recency κ υ :=
  ⟨(key, value) :: (cache.without key).entries, cache.capacity, nodup_cons_without⟩

def get : Option υ × Recency κ υ :=
  match cache.find key with
  | some value => (some value, cache.toFront key value)
  | none => (none, cache)

def put : Recency κ υ :=
  match cache.capacity with
  | some limit =>
    (cache.toFront key value).restrict ((cache.toFront key value).entries.take limit)
      (List.take_sublist _ _)
  | none => cache.toFront key value

def pop : Option υ × Recency κ υ := (cache.find key, cache.without key)

theorem get_fst : (cache.get key).1 = cache.find key := by
  unfold get
  cases cache.find key with
  | none => rfl
  | some value => rfl

theorem entries_get : (cache.get key).2.entries.Perm cache.entries := by
  unfold get
  cases hfound : cache.find key with
  | none => exact .refl _
  | some value =>
    have hmem := find_eq_some.mp hfound
    refine (List.perm_ext_iff_of_nodup (List.Nodup.of_map _ nodup_cons_without)
      (List.Nodup.of_map _ cache.nodup_keys)).mpr fun entry => ?_
    rw [List.mem_cons, mem_without]
    constructor
    · rintro (rfl | ⟨hold, -⟩)
      · exact hmem
      · exact hold
    · intro hold
      by_cases hkey : entry.1 = key
      · exact .inl (List.inj_on_of_nodup_map cache.nodup_keys hold hmem hkey)
      · exact .inr ⟨hold, hkey⟩

theorem entries_put {entry : κ × υ} (h : entry ∈ (cache.put key value).entries) :
    entry = (key, value) ∨ entry ∈ cache.entries ∧ entry.1 ≠ key := by
  have hfront : entry ∈ (cache.toFront key value).entries := by
    unfold put at h
    split at h
    · exact List.mem_of_mem_take h
    · exact h
  exact (List.mem_cons.mp hfront).imp_right mem_without.mp

theorem capacity_put : (cache.put key value).capacity = cache.capacity := by
  unfold put
  split
  · rfl
  · rfl

theorem get_eq_some : (cache.get key).1 = some value ↔ (key, value) ∈ cache.entries := by
  rw [get_fst]
  exact find_eq_some

theorem capacity_get : (cache.get key).2.capacity = cache.capacity := by
  unfold get
  cases cache.find key with
  | none => rfl
  | some value => rfl

theorem capacity_pop : (cache.pop key).2.capacity = cache.capacity := rfl

theorem entries_put_new (hunbounded : cache.capacity = none)
    (hnew : ∀ entry ∈ cache.entries, entry.1 ≠ key) :
    (cache.put key value).entries.Perm ((key, value) :: cache.entries) := by
  have hkept : (cache.without key).entries = cache.entries :=
    List.filter_eq_self.mpr fun entry hentry => decide_eq_true (hnew entry hentry)
  unfold put
  rw [hunbounded]
  exact (congrArg ((key, value) :: ·) hkept) ▸ .refl _

omit [DecidableEq κ] in
theorem entries_popLru :
    cache.entries.Perm (cache.popLru.1.toList ++ cache.popLru.2.entries) := by
  change cache.entries.Perm (cache.entries.getLast?.toList ++ cache.entries.dropLast)
  cases hlast : cache.entries.getLast? with
  | none =>
    rw [List.getLast?_eq_none_iff.mp hlast]
    exact .refl _
  | some entry =>
    have hsplit : cache.entries.dropLast ++ [entry] = cache.entries :=
      List.dropLast_append_getLast? entry hlast
    exact (List.Perm.of_eq hsplit.symm).trans (List.perm_append_singleton entry _)

end Recency

/-- The library of the caches that keep their entries in the order of their use. -/
def byRecency : Interface where
  Cache := Recency
  new := Recency.new
  capacity := Recency.capacity
  entries := Recency.entries
  get cache key := cache.get key
  put cache key value := cache.put key value
  pop cache key := cache.pop key
  popLru := Recency.popLru
  clear := Recency.clear
  nodup_keys := Recency.nodup_keys
  entries_new _ := rfl
  entries_clear _ := rfl
  get_eq_some cache key value := cache.get_eq_some key value
  entries_get cache key := cache.entries_get key
  entries_put cache key value _ h := cache.entries_put key value h
  entries_put_new cache key value := cache.entries_put_new key value
  pop_eq_some _ _ _ := Recency.find_eq_some
  mem_entries_pop _ _ _ := Recency.mem_without
  entries_popLru := Recency.entries_popLru
  popLru_eq_none _ h := List.getLast?_eq_none_iff.mp h
  capacity_new _ := rfl
  capacity_get cache key := cache.capacity_get key
  capacity_put cache key value := cache.capacity_put key value
  capacity_pop cache key := cache.capacity_pop key
  capacity_popLru _ := rfl

end LruCache
