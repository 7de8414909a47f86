import Mathlib.Data.Finmap
import Mathlib.Data.Multiset.Count
import Mathlib.Tactic

/-!
# Reference-counted tables

A table maps keys to shared runtimes with a reference count.  Acquiring a key
creates the entry or counts it up; releasing counts it down and drops the entry
at zero.  Who holds the references is not recorded in the table: a multiset of
keys, one occurrence for each reference held, says what the counts must be.
`Counts` is that agreement, and it is what every operation preserves.
-/

namespace GGateway.Library
namespace RefTable

/-- A shared runtime and the number of references to it. -/
structure Entry (ρ : Type*) where
  runtime : ρ
  refs : Int
  deriving DecidableEq

abbrev Table (κ ρ : Type*) := Finmap fun _ : κ => Entry ρ

variable {κ ρ : Type*} [DecidableEq κ]

/-- The runtime registered under a key. -/
def runtime? (table : Table κ ρ) (key : κ) : Option ρ :=
  (table.lookup key).map Entry.runtime

/-- The entry of a key after one more reference; `fresh` is used for a new one. -/
def counted (table : Table κ ρ) (key : κ) (fresh : ρ) : Entry ρ :=
  match table.lookup key with
  | some entry => { entry with refs := entry.refs + 1 }
  | none => ⟨fresh, 1⟩

/-- Take one reference to a key. -/
def acquire (table : Table κ ρ) (key : κ) (fresh : ρ) : Table κ ρ :=
  table.insert key (counted table key fresh)

/-- Drop one reference, and the entry with its last one.  The result is `none`
on underflow, and otherwise the table and the runtime that was dropped. -/
def release (table : Table κ ρ) (key : κ) : Option (Table κ ρ × Option ρ) :=
  match table.lookup key with
  | none => none
  | some entry =>
    if entry.refs ≤ 0 then none
    else if entry.refs - 1 = 0 then some (table.erase key, some entry.runtime)
    else some (table.insert key { entry with refs := entry.refs - 1 }, none)

/-- Drop one reference for each key of a list, collecting the dropped keys with
their runtimes. -/
def releaseAll : List κ → Table κ ρ → Option (Table κ ρ × List (κ × ρ))
  | [], table => some (table, [])
  | key :: rest, table =>
    match release table key with
    | none => none
    | some (next, dropped) =>
      match releaseAll rest next with
      | none => none
      | some (final, others) => some (final, (dropped.map (key, ·)).toList ++ others)

/-- The counts of a table are the numbers of references held, and there is an
entry exactly for the keys that are held. -/
def Counts (table : Table κ ρ) (held : Multiset κ) : Prop :=
  ∀ key, (table.lookup key).map Entry.refs =
    if held.count key = 0 then none else some (held.count key : Int)

theorem counts_empty : Counts (∅ : Table κ ρ) 0 := by
  intro key
  simp

variable {key other : κ} {value : ρ} {next : Table κ ρ}

section Reading

variable {table : Table κ ρ} {held : Multiset κ}

theorem mem_keys_of_runtime (h : runtime? table key = some value) : key ∈ table.keys := by
  obtain ⟨entry, hentry, _⟩ := Option.map_eq_some_iff.mp h
  exact Finmap.mem_keys.mpr (Finmap.mem_of_lookup_eq_some hentry)

theorem Counts.lookup_eq_none_iff (h : Counts table held) :
    table.lookup key = none ↔ key ∉ held := by
  have hkey := h key
  rw [← Multiset.count_eq_zero]
  cases hlookup : table.lookup key with
  | none =>
    rw [hlookup] at hkey
    by_cases hcount : held.count key = 0
    · simp [hcount]
    · simp [hcount] at hkey
  | some entry =>
    rw [hlookup] at hkey
    by_cases hcount : held.count key = 0
    · simp [hcount] at hkey
    · simp [hcount]

/-- A key that is held has an entry with the right count. -/
theorem Counts.exists_entry (h : Counts table held) (hkey : key ∈ held) :
    ∃ entry, table.lookup key = some entry ∧ entry.refs = held.count key ∧ 0 < entry.refs := by
  have hcount := h key
  have hpos : 0 < held.count key := Multiset.count_pos.mpr hkey
  rw [if_neg (by omega), Option.map_eq_some_iff] at hcount
  obtain ⟨entry, hentry, hrefs⟩ := hcount
  exact ⟨entry, hentry, hrefs, by omega⟩

theorem Counts.refs_eq (h : Counts table held) {entry : Entry ρ}
    (hentry : table.lookup key = some entry) : entry.refs = held.count key ∧ 0 < entry.refs := by
  have hkey : key ∈ held := by
    by_contra hnot
    rw [h.lookup_eq_none_iff.mpr hnot] at hentry
    contradiction
  obtain ⟨other, hother, hrefs, hpos⟩ := h.exists_entry hkey
  rw [hentry] at hother
  cases hother
  exact ⟨hrefs, hpos⟩

/-- A table is determined by who holds it and by the runtimes. -/
theorem Counts.ext {table' : Table κ ρ} (h : Counts table held) (h' : Counts table' held)
    (hruntime : ∀ key ∈ held, runtime? table key = runtime? table' key) : table = table' := by
  apply Finmap.ext_lookup
  intro key
  by_cases hkey : key ∈ held
  · obtain ⟨entry, hentry, hrefs, _⟩ := h.exists_entry hkey
    obtain ⟨entry', hentry', hrefs', _⟩ := h'.exists_entry hkey
    have hsame := hruntime key hkey
    simp only [runtime?, hentry, hentry', Option.map_some, Option.some.injEq] at hsame
    rw [hentry, hentry']
    cases entry
    cases entry'
    simp_all
  · rw [h.lookup_eq_none_iff.mpr hkey, h'.lookup_eq_none_iff.mpr hkey]

end Reading

section Updating

variable {table : Table κ ρ} {held : Multiset κ}

theorem lookup_acquire (key other : κ) (fresh : ρ) :
    (acquire table key fresh).lookup other =
      if other = key then some (counted table key fresh) else table.lookup other := by
  unfold acquire
  by_cases hother : other = key
  · subst hother
    rw [if_pos rfl, Finmap.lookup_insert]
  · rw [if_neg hother, Finmap.lookup_insert_of_ne _ hother]

theorem Counts.acquire (h : Counts table held) (key : κ) (fresh : ρ) :
    Counts (acquire table key fresh) (key ::ₘ held) := by
  intro other
  rw [lookup_acquire]
  by_cases hother : other = key
  · subst hother
    rw [if_pos rfl, Multiset.count_cons_self, if_neg (by omega)]
    have hkey := h other
    unfold counted
    cases hlookup : table.lookup other with
    | none =>
      have hnot := Multiset.count_eq_zero.mpr (h.lookup_eq_none_iff.mp hlookup)
      simp [hnot]
    | some entry =>
      have hrefs := (h.refs_eq hlookup).1
      simp [hrefs]
  · rw [if_neg hother, Multiset.count_cons_of_ne hother]
    exact h other

/-- An entry that exists keeps its runtime when references are taken. -/
theorem runtime?_acquire_of_some {fresh : ρ} (h : runtime? table other = some value) :
    runtime? (acquire table key fresh) other = some value := by
  unfold runtime? at h ⊢
  rw [lookup_acquire]
  by_cases hother : other = key
  · subst hother
    rw [if_pos rfl]
    unfold counted
    cases hlookup : table.lookup other with
    | none => simp [hlookup] at h
    | some entry => simpa [hlookup] using h
  · rw [if_neg hother]
    exact h

theorem runtime?_acquire_self (key : κ) (fresh : ρ) :
    runtime? (acquire table key fresh) key = some (counted table key fresh).runtime := by
  unfold runtime?
  rw [lookup_acquire, if_pos rfl]
  rfl

/-- Releasing a reference that is held does not underflow. -/
theorem Counts.release (h : Counts table (key ::ₘ held)) :
    ∃ next dropped, release table key = some (next, dropped) ∧ Counts next held ∧
      dropped = (if key ∈ held then none else runtime? table key) ∧
      ∀ other ∈ held, runtime? next other = runtime? table other := by
  obtain ⟨entry, hentry, hrefs, hpos⟩ := h.exists_entry (Multiset.mem_cons_self key held)
  rw [Multiset.count_cons_self] at hrefs
  unfold RefTable.release
  rw [hentry]
  dsimp only
  rw [if_neg (by omega)]
  by_cases hlast : entry.refs - 1 = 0
  · rw [if_pos hlast]
    have hnot : key ∉ held := Multiset.count_eq_zero.mp (by omega)
    refine ⟨_, _, rfl, ?_, by simp [hnot, runtime?, hentry], ?_⟩
    · intro other
      by_cases hother : other = key
      · subst hother
        rw [Finmap.lookup_erase, Multiset.count_eq_zero.mpr hnot]
        rfl
      · rw [Finmap.lookup_erase_ne hother]
        have hcount := h other
        rwa [Multiset.count_cons_of_ne hother] at hcount
    · intro other hmem
      have hother : other ≠ key := fun heq => hnot (heq ▸ hmem)
      unfold runtime?
      rw [Finmap.lookup_erase_ne hother]
  · rw [if_neg hlast]
    have hmem : key ∈ held := Multiset.count_pos.mp (by omega)
    refine ⟨_, _, rfl, ?_, by simp [hmem], ?_⟩
    · intro other
      by_cases hother : other = key
      · subst hother
        rw [Finmap.lookup_insert, if_neg (by omega)]
        simp only [Option.map_some, Option.some.injEq]
        omega
      · rw [Finmap.lookup_insert_of_ne _ hother]
        have hcount := h other
        rwa [Multiset.count_cons_of_ne hother] at hcount
    · intro other _
      unfold runtime?
      by_cases hother : other = key
      · subst hother
        rw [Finmap.lookup_insert, hentry]
        rfl
      · rw [Finmap.lookup_insert_of_ne _ hother]

/-- The entry a single release contributes to the dropped ones. -/
theorem mem_dropped {dropped : Option ρ} {rest : Multiset κ}
    (h : dropped = if key ∈ rest then none else runtime? table key) :
    (other, value) ∈ (dropped.map (key, ·)).toList ↔
      other = key ∧ key ∉ rest ∧ runtime? table key = some value := by
  subst h
  by_cases hkey : key ∈ rest
  · simp [hkey]
  cases hruntime : runtime? table key with
  | none => simp [hkey]
  | some stored => simp [hkey, eq_comm]

/-- Releasing a list of references that are all held does not underflow.  It
drops exactly the keys that nobody else holds. -/
theorem Counts.releaseAll {keys : List κ} (h : Counts table (keys + held)) :
    ∃ next dropped, releaseAll keys table = some (next, dropped) ∧ Counts next held ∧
      (∀ other ∈ held, runtime? next other = runtime? table other) ∧
      (∀ key value, (key, value) ∈ dropped ↔
        key ∈ keys ∧ key ∉ held ∧ runtime? table key = some value) ∧
      (dropped.map Prod.fst).Nodup := by
  induction keys generalizing table with
  | nil => exact ⟨table, [], rfl, by simpa using h, fun _ _ => rfl, by simp, by simp⟩
  | cons key rest ih =>
    have hcons : Counts table (key ::ₘ (rest + held)) := by
      rwa [← Multiset.cons_coe, Multiset.cons_add] at h
    obtain ⟨next, dropped, hrelease, hnext, hdropped, hruntime⟩ := hcons.release
    obtain ⟨final, others, hall, hfinal, hkeep, hothers, hnodup⟩ := ih hnext
    have hsame : ∀ other ∈ rest, runtime? next other = runtime? table other := fun other hother =>
      hruntime other (Multiset.mem_add.mpr (Or.inl hother))
    refine ⟨final, (dropped.map (key, ·)).toList ++ others, ?_, hfinal, ?_, ?_, ?_⟩
    · simp only [RefTable.releaseAll, hrelease, hall]
    · intro other hother
      rw [hkeep other hother]
      exact hruntime other (Multiset.mem_add.mpr (Or.inr hother))
    · intro other value
      rw [List.mem_append, hothers, mem_dropped hdropped, List.mem_cons]
      constructor
      · rintro (⟨rfl, hnot, hvalue⟩ | ⟨hother, hnot, hvalue⟩)
        · rw [Multiset.mem_add, not_or] at hnot
          exact ⟨Or.inl rfl, hnot.2, hvalue⟩
        · exact ⟨Or.inr hother, hnot, hsame other hother ▸ hvalue⟩
      · rintro ⟨hother, hnot, hvalue⟩
        by_cases hrest : other ∈ rest
        · exact Or.inr ⟨hrest, hnot, (hsame other hrest).symm ▸ hvalue⟩
        have hkey : other = key := hother.resolve_right hrest
        refine Or.inl ⟨hkey, ?_, hkey ▸ hvalue⟩
        rw [Multiset.mem_add, not_or, ← hkey]
        exact ⟨hrest, hnot⟩
    · rw [List.map_append, List.nodup_append]
      refine ⟨by cases dropped <;> simp, hnodup, ?_⟩
      rintro first hfirst second hsecond rfl
      obtain ⟨⟨other, value⟩, hmem, rfl⟩ := List.mem_map.mp hfirst
      obtain ⟨⟨other', value'⟩, hmem', heq⟩ := List.mem_map.mp hsecond
      obtain ⟨hkey, hnot, _⟩ := (mem_dropped hdropped).mp hmem
      have hrest := ((hothers other' value').mp hmem').1
      dsimp only at heq
      rw [heq, hkey] at hrest
      exact hnot (Multiset.mem_add.mpr (Or.inl hrest))

/-! The runtimes of a table, whoever holds them. -/

/-- A runtime that is registered after a reference was taken was registered before,
or is the one made for it. -/
theorem runtime?_of_acquire {fresh : ρ}
    (h : runtime? (acquire table key fresh) other = some value) :
    runtime? table other = some value ∨
      other = key ∧ runtime? table key = none ∧ value = fresh := by
  unfold runtime? at h ⊢
  rw [lookup_acquire] at h
  by_cases hother : other = key
  · subst hother
    rw [if_pos rfl] at h
    unfold counted at h
    cases hlookup : table.lookup other with
    | none =>
      rw [hlookup] at h
      exact Or.inr ⟨rfl, rfl, (Option.some.inj h).symm⟩
    | some entry =>
      rw [hlookup] at h
      exact Or.inl h
  · rw [if_neg hother] at h
    exact Or.inl h

/-- Releasing registers nothing. -/
theorem runtime?_of_release {dropped : Option ρ} (h : release table key = some (next, dropped))
    (hvalue : runtime? next other = some value) : runtime? table other = some value := by
  unfold release at h
  split at h
  · contradiction
  rename_i entry hentry
  split_ifs at h
  · cases h
    by_cases hother : other = key
    · subst hother
      simp [runtime?] at hvalue
    · rwa [runtime?, Finmap.lookup_erase_ne hother] at hvalue
  · cases h
    by_cases hother : other = key
    · subst hother
      rw [runtime?, Finmap.lookup_insert] at hvalue
      rw [runtime?, hentry]
      exact hvalue
    · rwa [runtime?, Finmap.lookup_insert_of_ne _ hother] at hvalue

theorem runtime?_of_releaseAll {keys : List κ} {dropped : List (κ × ρ)}
    (h : releaseAll keys table = some (next, dropped)) (hvalue : runtime? next other = some value) :
    runtime? table other = some value := by
  induction keys generalizing table dropped with
  | nil =>
    cases h
    exact hvalue
  | cons key rest ih =>
    simp only [releaseAll] at h
    split at h
    · contradiction
    rename_i middle first hfirst
    split at h
    · contradiction
    rename_i final others hothers
    cases h
    exact runtime?_of_release hfirst (ih hothers)

/-! The keys of a table, whoever holds them. -/

theorem keys_acquire (key : κ) (fresh : ρ) :
    (acquire table key fresh).keys = insert key table.keys := by
  ext other
  rw [acquire, Finmap.mem_keys, Finmap.mem_insert, Finset.mem_insert, Finmap.mem_keys]

/-- Releasing drops at most the key that is released. -/
theorem keys_release {dropped : Option ρ} (h : release table key = some (next, dropped)) :
    key ∈ table.keys ∧ next.keys = if dropped.isSome then table.keys.erase key else table.keys := by
  unfold release at h
  split at h
  · contradiction
  rename_i entry hentry
  have hkey : key ∈ table.keys :=
    Finmap.mem_keys.mpr (Finmap.mem_of_lookup_eq_some hentry)
  refine ⟨hkey, ?_⟩
  split_ifs at h
  · cases h
    exact Finmap.keys_erase key table
  cases h
  ext other
  simp only [Option.isSome_none, Bool.false_eq_true, if_false, Finmap.mem_keys,
    Finmap.mem_insert]
  constructor
  · rintro (rfl | hmem)
    · exact Finmap.mem_keys.mp hkey
    · exact hmem
  · exact Or.inr

/-- As many keys disappear as are reported dropped. -/
theorem card_keys_releaseAll {keys : List κ} {dropped : List (κ × ρ)}
    (h : releaseAll keys table = some (next, dropped)) :
    table.keys.card = next.keys.card + dropped.length ∧ next.keys ⊆ table.keys ∧
      ∀ entry ∈ dropped, entry.1 ∈ table.keys := by
  induction keys generalizing table dropped with
  | nil =>
    cases h
    simp
  | cons key rest ih =>
    simp only [releaseAll] at h
    split at h
    · contradiction
    rename_i middle first hfirst
    split at h
    · contradiction
    rename_i final others hothers
    cases h
    obtain ⟨hkey, hkeys⟩ := keys_release hfirst
    obtain ⟨hcard, hsubset, hmem⟩ := ih hothers
    have hmiddle : middle.keys ⊆ table.keys := by
      rw [hkeys]
      split_ifs
      · exact Finset.erase_subset key table.keys
      · exact Finset.Subset.refl _
    refine ⟨?_, hsubset.trans hmiddle, ?_⟩
    · cases first with
      | none =>
        rw [hkeys] at hcard
        simpa using hcard
      | some value =>
        have herase := Finset.card_erase_add_one hkey
        simp only [Option.isSome_some, if_true] at hkeys
        rw [← hkeys, hcard] at herase
        simp only [Option.map_some, Option.toList_some, List.singleton_append,
          List.length_cons]
        omega
    · intro entry hentry
      rcases List.mem_append.mp hentry with hentry | hentry
      · cases first with
        | none => simp at hentry
        | some value =>
          obtain rfl : entry = (key, value) := by simpa using hentry
          exact hkey
      · exact hmiddle (hmem entry hentry)

end Updating

end RefTable
end GGateway.Library
