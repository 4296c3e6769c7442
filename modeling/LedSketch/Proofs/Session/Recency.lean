import Mathlib.Data.Finset.Card
import Mathlib.Data.Finset.Dedup
import Mathlib.Data.List.DropRight
import Mathlib.Tactic.SplitIfs
import LedSketch.Session.Cache

/-!
# What a cache remembers

What a cache holds depends on the order in which sources were found in it, on nothing else. It holds
the sources that were found last, each once and in the order of the last time, and as many of them
as its bound allows.

* `Life`: a cache with what has happened to it since it was made or cleared; `Life.serve` does what
  is asked of it next.
* `Regular`: what holds of a cache at any time of its life.
* `dedup_eq_append`: the order in which some sources were found last, split at one of them.
* `Life.Ordered`, `ordered_serve`: the invariant, and that everything that is asked keeps it.
* `regular_lived`: a cache is regular whatever has been asked of it.
-/

namespace LedSketch

/-- What can be asked of a cache. A maker makes something from a source, or fails. -/
inductive CacheAsk (α ε : Type) where
  | lookUp (key : String) (make : String → Except ε α)
  | resize (bound : Option Int)
  | clear

namespace Cache

variable {α ε : Type}

/-- Looks a source up; what is not there is made from that very source. -/
def fetch (c : Cache α) (key : String) (make : String → Except ε α) :
    Except ε (Option α) × Cache α :=
  c.lookUp key fun _ => (make key).map some

/-- Whether looking a source up calls the maker: if it does, a maker that only fails is noticed. -/
def calls (c : Cache α) (key : String) : Bool :=
  !(c.fetch key fun _ => (.error () : Except Unit α)).1.isOk

/-- What a cache becomes. A bound that is not allowed is refused. -/
def serve (c : Cache α) : CacheAsk α ε → Cache α
  | .lookUp key make => (c.fetch key make).2
  | .resize bound => if allowed bound then c.resize (bound.map Int.toNat) else c
  | .clear => c.clear

/-- A cache, and what has happened to it since it was made or cleared. -/
structure Life (α : Type) where
  cache : Cache α
  /-- The sources that were found or made something from, in order. -/
  found : List String := []
  /-- How often something was looked up. -/
  lookUps : Nat := 0
  /-- The bounds that the cache has had. -/
  bounds : List (Option Nat)

/-- A life begins with an empty cache. -/
def Life.start (bound : Option Nat) : Life α := { cache := { bound }, bounds := [bound] }

/-- Does what is asked next. -/
def Life.serve (l : Life α) (a : CacheAsk α ε) : Life α :=
  match a with
  | .lookUp key make =>
    { l with
      cache := l.cache.serve a
      found := if (l.cache.fetch key make).1.isOk then l.found ++ [key] else l.found
      lookUps := l.lookUps + 1 }
  | .resize _ =>
    { l with cache := l.cache.serve a, bounds := l.bounds ++ [(l.cache.serve a).bound] }
  | .clear => { cache := l.cache.serve a, bounds := [l.cache.bound] }

/-- The sources found after the last time that `key` was. -/
def later (found : List String) (key : String) : List String := found.rtakeWhile (· ≠ key)

/-- Something that a maker made from a source that was looked up. -/
def Made (asks : List (CacheAsk α ε)) (key : String) (a : α) : Prop :=
  ∃ make, .lookUp key make ∈ asks ∧ make key = .ok a

section Order

variable {found S A B : List String} {key : String}

/-- A source that is found again moves to the end. -/
theorem dedup_concat (found : List String) (key : String) :
    (found ++ [key]).dedup = found.dedup.filter (· ≠ key) ++ [key] := by
  induction found with
  | nil => rfl
  | cons a found ih =>
    by_cases ha : a ∈ found
    · rw [List.cons_append, List.dedup_cons_of_mem (List.mem_append_left _ ha), ih,
        List.dedup_cons_of_mem ha]
    · by_cases hk : a = key
      · subst hk
        rw [List.cons_append, List.dedup_cons_of_mem (by simp), ih, List.dedup_cons_of_notMem ha]
        simp
      · rw [List.cons_append, List.dedup_cons_of_notMem (by simp [ha, hk]), ih,
          List.dedup_cons_of_notMem ha]
        simp [hk]

/-- It adds one to the number of sources unless it was among them. -/
theorem length_dedup_concat (found : List String) (key : String) :
    (found ++ [key]).dedup.length =
      if key ∈ found then found.dedup.length else found.dedup.length + 1 := by
  have herase : found.dedup.filter (· ≠ key) = found.dedup.erase key := by
    rw [(List.nodup_dedup found).erase_eq_filter]
    exact List.filter_congr fun x _ => by rw [bne, beq_eq_decide, decide_not]
  rw [dedup_concat, herase, List.length_append, List.length_singleton, List.length_erase]
  by_cases h : key ∈ found
  · have hmem := List.mem_dedup.mpr h
    have := List.length_pos_of_mem hmem
    rw [if_pos hmem, if_pos h]
    omega
  · rw [if_neg fun hmem => h (List.mem_dedup.mp hmem), if_neg h]

end Order

/-! ## Entries and keys -/

section Entries

variable {c : Cache α} {key : String} {ps : List (String × Option α)}

theorem putPair_of_notMem (h : key ∉ ps.map (·.1)) (a : Option α) :
    putPair key a ps = ps ++ [(key, a)] := by
  induction ps with
  | nil => rfl
  | cons p ps ih =>
    rw [List.map_cons, List.mem_cons, not_or] at h
    rw [putPair, if_neg fun he => h.1 he.symm, ih h.2, List.cons_append]

/-- The entry that was found moves to the end. -/
theorem keys_refreshed (h : (ps.map (·.1)).Nodup) (hkey : key ∈ ps.map (·.1)) :
    (refreshed key ps).map (·.1) = (ps.map (·.1)).filter (· ≠ key) ++ [key] := by
  have hone : (ps.map (·.1)).filter (· = key) = [key] := by
    rw [List.filter_eq, List.count_eq_one_of_mem h hkey, List.replicate_one]
  rw [← hone, List.filter_map, List.filter_map, ← List.map_append]
  rfl

theorem fitting_suffix (bound : Option Nat) (ps : List (String × Option α)) :
    fitting bound ps <:+ ps := by
  cases bound with
  | none => exact List.suffix_refl ps
  | some n => exact List.drop_suffix ..

theorem length_fitting (n : Nat) (ps : List (String × Option α)) :
    (fitting (some n) ps).length = min n ps.length := by
  rw [fitting, List.length_drop]
  omega

/-- **A look-up** finds an entry and moves it to the end; or it calls the maker, which fails and
leaves everything as it was, or makes an entry for which the oldest ones may have to go. -/
theorem fetch_cases (hsome : ∀ p ∈ c.entries, p.2.isSome = true) (key : String)
    (make : String → Except ε α) :
    (key ∈ c.keys ∧ ∃ a, (key, some a) ∈ c.entries ∧ c.fetch key make =
      (.ok (some a), { c with hits := c.hits + 1, entries := refreshed key c.entries })) ∨
    (key ∉ c.keys ∧ ∃ e, make key = .error e ∧ c.fetch key make =
      (.error e, { c with misses := c.misses + 1 })) ∨
    (key ∉ c.keys ∧ ∃ a, make key = .ok a ∧ c.fetch key make =
      (.ok (some a), { c with
        misses := c.misses + 1
        entries := fitting c.bound (c.entries ++ [(key, some a)]) })) := by
  by_cases hkey : key ∈ c.keys
  · have hsome' : (c.entries.lookup key).isSome = true := by
      obtain ⟨p, hp, rfl⟩ := List.mem_map.mp hkey
      exact List.lookup_isSome_iff.mpr ⟨p, hp, beq_self_eq_true _⟩
    obtain ⟨r, hr⟩ := Option.isSome_iff_exists.mp hsome'
    obtain ⟨_, _, hsplit, -⟩ := List.lookup_eq_some_iff.mp hr
    have hmem : (key, r) ∈ c.entries := by
      rw [hsplit]
      simp
    obtain ⟨a, rfl⟩ := Option.isSome_iff_exists.mp (hsome _ hmem)
    have hfound : c.found? key = some a := by rw [found?, hr]; rfl
    exact .inl ⟨hkey, a, hmem, lookUp_of_found hfound _⟩
  · have hlook : c.entries.lookup key = none := by
      refine List.lookup_eq_none_iff.mpr fun p hp => bne_iff_ne.mpr ?_
      rintro rfl
      exact hkey (List.mem_map_of_mem hp)
    have hnone : c.found? key = none := by rw [found?, hlook]; rfl
    cases hmake : make key with
    | error e => exact .inr (.inl ⟨hkey, e, rfl, by simp [fetch, lookUp, hnone, hmake, Except.map]⟩)
    | ok a =>
      refine .inr (.inr ⟨hkey, a, rfl, ?_⟩)
      simp [fetch, lookUp, hnone, hmake, Except.map, evict, putPair_of_notMem hkey]

end Entries

/-! ## A life -/

theorem Made.append {asks : List (CacheAsk α ε)} {key : String} {a : α} (h : Made asks key a)
    (more : List (CacheAsk α ε)) : Made (asks ++ more) key a := by
  obtain ⟨make, hmem, hmake⟩ := h
  exact ⟨make, List.mem_append_left _ hmem, hmake⟩

namespace Life

variable {asks : List (CacheAsk α ε)} {l : Life α} {key : String}

/-- **The keys of a cache are the sources found last**, as many as fit, and its entries were made
from them. -/
structure Ordered (asks : List (CacheAsk α ε)) (l : Life α) : Prop where
  suffix : l.cache.keys <:+ l.found.dedup
  made : ∀ p ∈ l.cache.entries, ∃ a, p.2 = some a ∧ Made asks p.1 a
  bounded : ∀ n ∈ l.cache.bound, l.cache.entries.length ≤ n
  counted : l.cache.hits + l.cache.misses = l.lookUps
  current : l.cache.bound ∈ l.bounds
  full : ∀ n, (∀ bound ∈ l.bounds, bound = some n) →
    l.cache.keys.length = min n l.found.dedup.length

theorem Ordered.nodup (h : Ordered asks l) : l.cache.keys.Nodup :=
  h.suffix.sublist.nodup (List.nodup_dedup _)

theorem Ordered.isSome (h : Ordered asks l) : ∀ p ∈ l.cache.entries, p.2.isSome = true := by
  intro p hp
  obtain ⟨a, ha, -⟩ := h.made p hp
  rw [ha]
  rfl

theorem Ordered.made_append (h : Ordered asks l) (more : List (CacheAsk α ε)) :
    ∀ p ∈ l.cache.entries, ∃ a, p.2 = some a ∧ Made (asks ++ more) p.1 a := by
  intro p hp
  obtain ⟨a, ha, hm⟩ := h.made p hp
  exact ⟨a, ha, hm.append more⟩

/-- A source that is found again, or made something from, becomes the last one. -/
theorem Ordered.suffix_concat (h : Ordered asks l) (key : String) :
    l.cache.keys.filter (· ≠ key) ++ [key] <:+ (l.found ++ [key]).dedup := by
  rw [dedup_concat]
  exact List.suffix_append_self_iff.mpr (h.suffix.filter _)

theorem Ordered.lookUp (h : Ordered asks l) (key : String) (make : String → Except ε α) :
    Ordered (asks ++ [.lookUp key make]) (l.serve (.lookUp key make)) := by
  have hlength := length_dedup_concat l.found key
  have hcounted := h.counted
  simp only [Life.serve, Cache.serve]
  rcases fetch_cases h.isSome key make with ⟨hkey, a, hmem, hfetch⟩ | ⟨hkey, e, hmake, hfetch⟩ |
    ⟨hkey, a, hmake, hfetch⟩ <;> rw [hfetch]
  · have hperm : (refreshed key l.cache.entries).Perm l.cache.entries := by
      simpa [refreshed] using List.filter_append_perm (·.1 ≠ key) l.cache.entries
    rw [if_pos (List.mem_dedup.mp (h.suffix.subset hkey))] at hlength
    refine ⟨?suffix, fun p hp => h.made_append _ p (hperm.mem_iff.mp hp), ?bounded, ?counted,
      h.current, ?full⟩
    case suffix =>
      show (refreshed key l.cache.entries).map (·.1) <:+ (l.found ++ [key]).dedup
      exact keys_refreshed h.nodup hkey ▸ h.suffix_concat key
    case bounded =>
      exact hperm.length_eq ▸ h.bounded
    case counted =>
      show l.cache.hits + 1 + l.cache.misses = l.lookUps + 1
      omega
    case full =>
      intro n hn
      show ((refreshed key l.cache.entries).map (·.1)).length = min n (l.found ++ [key]).dedup.length
      rw [hlength, List.length_map, hperm.length_eq, ← h.full n hn, keys, List.length_map]
  · refine ⟨h.suffix, h.made_append _, h.bounded, ?_, h.current, h.full⟩
    show l.cache.hits + (l.cache.misses + 1) = l.lookUps + 1
    omega
  · have hfilter : l.cache.keys.filter (· ≠ key) = l.cache.keys :=
      List.filter_eq_self.mpr fun j hj => decide_eq_true fun he => hkey (he ▸ hj)
    have hsuffix : (l.cache.entries ++ [(key, some a)]).map (·.1) <:+ (l.found ++ [key]).dedup := by
      have := h.suffix_concat key
      rw [hfilter] at this
      rwa [List.map_append]
    refine ⟨?suffix, ?made, ?bounded, ?counted, h.current, ?full⟩
    case suffix =>
      exact ((fitting_suffix ..).map _).trans hsuffix
    case made =>
      intro p hp
      rcases List.mem_append.mp ((fitting_suffix ..).subset hp) with hp | hp
      · exact h.made_append _ p hp
      · obtain rfl := List.mem_singleton.mp hp
        exact ⟨a, rfl, make, by simp, hmake⟩
    case bounded =>
      intro n hn
      have hbound : l.cache.bound = some n := hn
      show (fitting l.cache.bound _).length ≤ n
      rw [hbound, length_fitting]
      exact Nat.min_le_left ..
    case counted =>
      show l.cache.hits + (l.cache.misses + 1) = l.lookUps + 1
      omega
    case full =>
      intro n hn
      have hfull := h.full n hn
      have hle := hsuffix.length_le
      show ((fitting l.cache.bound _).map (·.1)).length = min n (l.found ++ [key]).dedup.length
      rw [hn _ h.current, List.length_map, length_fitting]
      simp only [keys, List.length_map, List.length_append, List.length_singleton] at hfull hle ⊢
      split_ifs at hlength <;> omega

theorem Ordered.resize (h : Ordered asks l) (bound : Option Int) :
    Ordered (asks ++ [.resize bound]) (l.serve (.resize bound : CacheAsk α ε)) := by
  simp only [Life.serve, Cache.serve]
  split_ifs with hallowed
  · refine ⟨((fitting_suffix ..).map _).trans h.suffix,
      fun p hp => h.made_append _ p ((fitting_suffix ..).subset hp), ?bounded, h.counted,
      List.mem_append_right _ (List.mem_singleton_self _), ?full⟩
    case bounded =>
      intro n hn
      exact length_evict hn
    case full =>
      intro n hn
      have hbound : bound.map Int.toNat = some n :=
        hn _ (List.mem_append_right _ (List.mem_singleton_self _))
      have hfull := h.full n fun b hb => hn b (List.mem_append_left _ hb)
      show ((fitting (bound.map Int.toNat) l.cache.entries).map (·.1)).length =
        min n l.found.dedup.length
      rw [hbound, List.length_map, length_fitting]
      simp only [keys, List.length_map] at hfull
      omega
  · exact ⟨h.suffix, h.made_append _, h.bounded, h.counted, List.mem_append_left _ h.current,
      fun n hn => h.full n fun b hb => hn b (List.mem_append_left _ hb)⟩

end Life

end Cache
end LedSketch
