import GGateway.Upstream.Acquisition
import GGateway.Upstream.Lifecycle

/-!
# Conservation of references

In every state that an interleaving of operations reaches, the count of each
entry is the number of times its key is owned: by candidates that are not
finished, by plan sets that are not finalized and by tunnel leases that are not
released.  The invariant has two halves.  `Owned` ties the tables to the owners,
and `Booked` ties the counters of plan sets and of the registry to the phases.
-/

namespace GGateway.Upstream

open Text Model Library Library.RefTable Library.Transition

/-! ## Who holds what -/

def Candidate.demand (candidate : Candidate) : Demand :=
  if candidate.phase = .finished then 0 else candidate.owned.demand

def PlanSet.demand (set : PlanSet) : Demand :=
  if set.finalized then 0 else set.owned.demand

def TunnelLease.demand (lease : TunnelLease) : Demand :=
  if lease.phase = .released then 0 else Pi.single .transport {lease.key}

/-- The occurrences of each key in the owned lists of unfinished candidates and
of unfinalized plan sets, and in the unreleased tunnel leases. -/
def World.holdings (world : World) : Demand :=
  total Candidate.demand world.candidates + total PlanSet.demand world.sets +
    total TunnelLease.demand world.leases

/-- Everything that an owner points to is registered. -/
structure World.PinnedIn (world : World) (registry : Registry) : Prop where
  candidates : ∀ candidate ∈ world.candidates, candidate.phase ≠ .finished →
    ∀ plan ∈ candidate.plans, plan.2.IsPinned registry candidate.owned
  sets : ∀ set ∈ world.sets, set.finalized = false →
    ∀ plan ∈ set.plans, plan.2.IsPinned registry set.owned
  leases : ∀ lease ∈ world.leases, lease.phase ≠ .released →
    runtime? registry.transports lease.key = some lease.runtime

structure World.Owned (world : World) : Prop where
  accounts : world.registry.Accounts world.holdings
  pinned : world.PinnedIn world.registry

variable {world : World} {set changed : PlanSet} {registry : Registry} {index : Nat}
  {retired : List Nat} {sets : List PlanSet}

theorem mem_holdings_of_candidate {candidate : Candidate} (h : candidate ∈ world.candidates)
    (hphase : candidate.phase ≠ .finished) {kind : Kind} {key : kind.Key}
    (hkey : key ∈ candidate.owned.keys kind) : key ∈ world.holdings kind := by
  obtain ⟨rest, hrest⟩ := exists_total_of_mem Candidate.demand h
  have hdemand : candidate.demand = candidate.owned.demand := if_neg hphase
  simp only [World.holdings, hrest, hdemand, Pi.add_apply, Multiset.mem_add]
  exact Or.inl (Or.inl (Or.inl hkey))

theorem mem_holdings_of_set (h : set ∈ world.sets) (hlive : set.finalized = false) {kind : Kind}
    {key : kind.Key} (hkey : key ∈ set.owned.keys kind) : key ∈ world.holdings kind := by
  obtain ⟨rest, hrest⟩ := exists_total_of_mem PlanSet.demand h
  have hdemand : set.demand = set.owned.demand := by
    rw [PlanSet.demand, hlive]
    rfl
  simp only [World.holdings, hrest, hdemand, Pi.add_apply, Multiset.mem_add]
  exact Or.inl (Or.inr (Or.inl hkey))

theorem mem_holdings_of_lease {lease : TunnelLease} (h : lease ∈ world.leases)
    (hphase : lease.phase ≠ .released) : lease.key ∈ world.holdings .transport := by
  obtain ⟨rest, hrest⟩ := exists_total_of_mem TunnelLease.demand h
  have hdemand : lease.demand = Pi.single .transport {lease.key} := if_neg hphase
  simp only [World.holdings, hrest, hdemand, Pi.add_apply, Multiset.mem_add, Pi.single_eq_same]
  exact Or.inr (Or.inl (Multiset.mem_singleton_self _))

/-- A change of the registry that keeps the runtimes of held keys keeps what the
owners point to. -/
theorem World.PinnedIn.keep {next : Registry} (h : world.PinnedIn registry)
    (hkeep : ∀ kind, ∀ key ∈ world.holdings kind,
      runtime? (next.table kind) key = runtime? (registry.table kind) key) :
    world.PinnedIn next := by
  refine ⟨?_, ?_, ?_⟩
  · intro candidate hmem hphase plan hplan
    refine (h.candidates candidate hmem hphase plan hplan).mono ?_
    intro kind key value hpinned
    refine ⟨hpinned.1, ?_⟩
    rw [hkeep kind key (mem_holdings_of_candidate hmem hphase hpinned.1)]
    exact hpinned.2
  · intro set hmem hlive plan hplan
    refine (h.sets set hmem hlive plan hplan).mono ?_
    intro kind key value hpinned
    refine ⟨hpinned.1, ?_⟩
    rw [hkeep kind key (mem_holdings_of_set hmem hlive hpinned.1)]
    exact hpinned.2
  · intro lease hmem hphase
    rw [← h.leases lease hmem hphase]
    exact hkeep .transport lease.key (mem_holdings_of_lease hmem hphase)

theorem World.Owned.congr {next : World} (h : world.Owned)
    (htable : next.registry.table = world.registry.table)
    (hholdings : next.holdings = world.holdings) (hpinned : next.PinnedIn world.registry) :
    next.Owned := by
  refine ⟨?_, ?_⟩
  · intro kind
    rw [htable, hholdings]
    exact h.accounts kind
  · refine hpinned.keep ?_
    intro kind key _
    rw [htable]

/-- Replacing a plan set by one with the same plans and references. -/
theorem World.Owned.set_planSet (h : world.Owned) (hset : world.sets[index]? = some set)
    (hplans : changed.plans = set.plans) (howned : changed.owned = set.owned)
    (hfinalized : changed.finalized = set.finalized)
    (htable : registry.table = world.registry.table) {pending delivered : List Notification} :
    World.Owned
      { registry := registry
        candidates := world.candidates
        sets := world.sets.set index changed
        leases := world.leases
        pending := pending
        delivered := delivered } := by
  refine h.congr htable ?_ ⟨h.pinned.candidates, ?_, h.pinned.leases⟩
  · have hsame : changed.demand = set.demand := by
      simp only [PlanSet.demand, howned, hfinalized]
    simp only [World.holdings, total_set_of_eq hset hsame]
  · refine forall_mem_set h.pinned.sets ?_
    rw [hplans, howned, hfinalized]
    exact h.pinned.sets set (List.mem_of_getElem? hset)

/-! ## Counters and phases -/

def PlanSet.ownerRefs (set : PlanSet) : Int :=
  if set.phase = .released then 0 else 1

def PlanSet.activity (set : PlanSet) : Int :=
  match set.phase with
  | .active | .retiring => 1
  | .committing | .registered | .released => 0

/-- Whether a plan set is on the retired list. -/
def PlanSet.listed (set : PlanSet) : Bool :=
  match set.phase with
  | .committing | .active | .retiring => false
  | .registered | .released => !set.finalized

def TunnelLease.liveness (lease : TunnelLease) : Int :=
  if lease.phase = .released then 0 else 1

/-- The reference count is the owner reference and the ones that were acquired,
and a finalized set has neither. -/
structure PlanSet.WellCounted (set : PlanSet) : Prop where
  refs : set.refs = set.ownerRefs + set.holders
  finalized : set.finalized = true → set.phase = .released ∧ set.holders = 0

/-- A list of indices names exactly the plan sets that are retired and not
finalized, each once. -/
structure Registers (retired : List Nat) (sets : List PlanSet) : Prop where
  nodup : retired.Nodup
  mem_iff : ∀ index, index ∈ retired ↔ ∃ set, sets[index]? = some set ∧ set.listed = true

/-- The counters agree with the phases; `reaping` are sets that a pass of the
reaper has taken off the list and not yet finalized. -/
structure World.Booked (world : World) (reaping : List Nat) : Prop where
  counted : ∀ set ∈ world.sets, set.WellCounted
  active : world.registry.activePlanSets = total PlanSet.activity world.sets
  live : world.registry.liveTunnelLeases = total TunnelLease.liveness world.leases
  registers : Registers (world.registry.retired ++ reaping) world.sets

theorem Registers.of_perm {other : List Nat} (h : Registers retired sets)
    (hperm : retired.Perm other) : Registers other sets :=
  ⟨hperm.nodup_iff.mp h.nodup, fun index => hperm.mem_iff.symm.trans (h.mem_iff index)⟩

/-- What a changed plan set is found to be at an index. -/
theorem exists_listed_set {other : Nat} (hset : sets[index]? = some set) :
    (∃ found, (sets.set index changed)[other]? = some found ∧ found.listed = true) ↔
      if other = index then changed.listed = true
      else ∃ found, sets[other]? = some found ∧ found.listed = true := by
  have hlt : index < sets.length := (List.getElem?_eq_some_iff.mp hset).1
  by_cases hother : other = index
  · subst hother
    rw [if_pos rfl, List.getElem?_set_self hlt]
    simp
  · rw [if_neg hother, List.getElem?_set_ne (Ne.symm hother)]

theorem Registers.set_same (h : Registers retired sets) (hset : sets[index]? = some set)
    (hlisted : changed.listed = set.listed) : Registers retired (sets.set index changed) := by
  refine ⟨h.nodup, ?_⟩
  intro other
  rw [h.mem_iff, exists_listed_set hset]
  by_cases hother : other = index
  · subst hother
    simp [hset, hlisted]
  · rw [if_neg hother]

theorem Registers.list (h : Registers retired sets) (hset : sets[index]? = some set)
    (hbefore : set.listed = false) (hafter : changed.listed = true) :
    Registers (retired ++ [index]) (sets.set index changed) := by
  have hnot : index ∉ retired := by
    rw [h.mem_iff]
    intro hlisted
    obtain ⟨found, hfound, hlisted⟩ := hlisted
    obtain rfl := Option.some.inj (hset.symm.trans hfound)
    rw [hbefore] at hlisted
    contradiction
  refine ⟨?_, ?_⟩
  · exact List.nodup_append.mpr ⟨h.nodup, List.nodup_singleton index, by
      intro first hfirst second hsecond heq
      rw [List.mem_singleton] at hsecond
      exact hnot (hsecond ▸ heq ▸ hfirst)⟩
  · intro other
    rw [List.mem_append, List.mem_singleton, h.mem_iff, exists_listed_set hset]
    by_cases hother : other = index
    · simp [hother, hafter]
    · simp [hother]

theorem Registers.unlist {rest : List Nat} (h : Registers (retired ++ index :: rest) sets)
    (hset : sets[index]? = some set) (hafter : changed.listed = false) :
    Registers (retired ++ rest) (sets.set index changed) := by
  have hperm : (retired ++ index :: rest).Perm (index :: (retired ++ rest)) := List.perm_middle
  have h' := h.of_perm hperm
  obtain ⟨hnot, hnodup⟩ := List.nodup_cons.mp h'.nodup
  refine ⟨hnodup, ?_⟩
  intro other
  rw [exists_listed_set hset]
  by_cases hother : other = index
  · subst hother
    simp [hafter, hnot]
  · rw [if_neg hother, ← h'.mem_iff, List.mem_cons]
    simp [hother]

theorem Registers.concat {added : PlanSet} (h : Registers retired sets)
    (hadded : added.listed = false) : Registers retired (sets ++ [added]) := by
  refine ⟨h.nodup, ?_⟩
  intro index
  rw [h.mem_iff]
  constructor
  · intro hlisted
    obtain ⟨found, hfound, hlisted⟩ := hlisted
    refine ⟨found, ?_, hlisted⟩
    rw [List.getElem?_append_left (List.getElem?_eq_some_iff.mp hfound).1]
    exact hfound
  · intro hlisted
    obtain ⟨found, hfound, hlisted⟩ := hlisted
    rcases Nat.lt_or_ge index sets.length with hlt | hge
    · rw [List.getElem?_append_left hlt] at hfound
      exact ⟨found, hfound, hlisted⟩
    rw [List.getElem?_append_right hge, List.getElem?_singleton] at hfound
    split at hfound
    · rw [← Option.some.inj hfound, hadded] at hlisted
      contradiction
    · contradiction

/-- A change of one plan set that the registry does not notice. -/
theorem World.Booked.set_planSet {reaping : List Nat} (h : world.Booked reaping)
    (hset : world.sets[index]? = some set) (hcounted : changed.WellCounted)
    (hactivity : changed.activity = set.activity) (hlisted : changed.listed = set.listed) :
    World.Booked { world with sets := world.sets.set index changed } reaping := by
  refine ⟨forall_mem_set h.counted hcounted, ?_, h.live, h.registers.set_same hset hlisted⟩
  rw [total_set_of_eq hset hactivity]
  exact h.active

structure World.Consistent (world : World) : Prop where
  owned : world.Owned
  booked : world.Booked []

theorem initial_consistent (maxRetiredSnapshots : Nat) :
    (World.initial maxRetiredSnapshots).Consistent := by
  refine ⟨⟨?_, ⟨?_, ?_, ?_⟩⟩, ⟨?_, rfl, rfl, ⟨List.nodup_nil, ?_⟩⟩⟩
  · intro kind
    cases kind <;> exact counts_empty
  · simp [World.initial]
  · simp [World.initial]
  · simp [World.initial]
  · simp [World.initial]
  · simp [World.initial, Registry.initial]

theorem World.Consistent.notify (h : world.Consistent) (notifications : List Notification) :
    (world.notify notifications).Consistent :=
  ⟨⟨h.owned.accounts, ⟨h.owned.pinned.1, h.owned.pinned.2, h.owned.pinned.3⟩⟩,
    ⟨h.booked.1, h.booked.2, h.booked.3, h.booked.4⟩⟩

/-! ## Steps on one plan set -/

theorem World.Consistent.set_planSet (h : world.Consistent) (hset : world.sets[index]? = some set)
    (hplans : changed.plans = set.plans) (howned : changed.owned = set.owned)
    (hfinalized : changed.finalized = set.finalized) (hcounted : changed.WellCounted)
    (hactivity : changed.activity = set.activity) (hlisted : changed.listed = set.listed) :
    World.Consistent { world with sets := world.sets.set index changed } :=
  ⟨h.owned.set_planSet hset hplans howned hfinalized rfl,
    h.booked.set_planSet hset hcounted hactivity hlisted⟩

theorem PlanSet.WellCounted.not_finalized (h : set.WellCounted) (hphase : set.phase ≠ .released) :
    set.finalized = false := by
  by_contra hfinalized
  exact hphase (h.finalized (by simpa using hfinalized)).1

/-- The owner keeps its reference while the phase changes. -/
theorem PlanSet.WellCounted.turn (h : set.WellCounted) (hphase : set.phase ≠ .released)
    {phase : PlanSetPhase} (hnext : phase ≠ .released) :
    PlanSet.WellCounted { set with phase := phase } := by
  refine ⟨?_, fun hfinalized => absurd hfinalized (by simp [h.not_finalized hphase])⟩
  have hsum := h.refs
  rw [PlanSet.ownerRefs, if_neg hphase] at hsum
  rw [PlanSet.ownerRefs, if_neg hnext]
  exact hsum

section PlanSets

variable (h : world.Consistent)

include h

theorem World.Consistent.wellCounted (hset : world.sets[index]? = some set) :
    set.WellCounted :=
  h.booked.counted set (List.mem_of_getElem? hset)

theorem World.Consistent.tryAcquire (index : Nat) (current : Int) :
    (world.tryAcquire index current).Ensures World.Consistent := by
  unfold World.tryAcquire
  split
  · trivial
  rename_i set hset
  split_ifs with hblocked hrefs
  · trivial
  · have hcounted := h.wellCounted hset
    refine h.set_planSet hset rfl rfl rfl ⟨?_, ?_⟩ rfl rfl
    · have hsum := hcounted.refs
      simp only [PlanSet.ownerRefs] at hsum ⊢
      push_cast
      omega
    · intro hfinalized
      -- a finalized set has no reference left, so the swap cannot have seen one
      obtain ⟨hphase, hholders⟩ := hcounted.finalized hfinalized
      have hsum := hcounted.refs
      rw [PlanSet.ownerRefs, if_pos hphase, hholders] at hsum
      omega
  · exact h

theorem World.Consistent.releaseLoad (index : Nat) :
    (world.releaseLoad index).Ensures World.Consistent := by
  unfold World.releaseLoad
  split
  · trivial
  rename_i set hset
  split_ifs with hholders hrefs
  · trivial
  · have hsum := (h.wellCounted hset).refs
    have howner : 0 ≤ set.ownerRefs := by
      unfold PlanSet.ownerRefs
      split_ifs <;> decide
    exact absurd hrefs (by omega)
  · exact h

theorem World.Consistent.releaseSwap (index : Nat) (current : Int) :
    (world.releaseSwap index current).Ensures World.Consistent := by
  unfold World.releaseSwap
  split
  · trivial
  rename_i set hset
  split_ifs with hblocked hrefs
  · trivial
  · have hcounted := h.wellCounted hset
    refine h.set_planSet hset rfl rfl rfl ⟨?_, ?_⟩ rfl rfl
    · have hsum := hcounted.refs
      simp only [PlanSet.ownerRefs] at hsum ⊢
      omega
    · intro hfinalized
      obtain ⟨hphase, hholders⟩ := hcounted.finalized hfinalized
      exact absurd (Or.inl hholders) hblocked
  · exact h

theorem World.Consistent.retire (index : Nat) :
    (world.retire index).Ensures World.Consistent := by
  unfold World.retire
  split
  · trivial
  rename_i set hset
  split_ifs with hcommitting hretired
  · trivial
  · exact h
  · have hactive : set.phase = .active := by
      unfold PlanSet.retired at hretired
      cases hphase : set.phase <;> simp_all
    have hcounted := h.wellCounted hset
    refine h.set_planSet hset rfl rfl rfl (hcounted.turn (by simp [hactive]) (by simp)) ?_ ?_
    · simp only [PlanSet.activity, hactive]
    · simp only [PlanSet.listed, hactive]

theorem World.Consistent.ownerLoad (index : Nat) :
    (world.ownerLoad index).Ensures World.Consistent := by
  unfold World.ownerLoad
  split
  · trivial
  rename_i set hset
  split_ifs with hphase hrefs
  · have hsum := (h.wellCounted hset).refs
    rw [PlanSet.ownerRefs, hphase] at hsum
    exact absurd hrefs (by simp at hsum; omega)
  · exact h
  · trivial

theorem World.Consistent.ownerSwap (index : Nat) (current : Int) :
    (world.ownerSwap index current).Ensures World.Consistent := by
  unfold World.ownerSwap
  split
  · trivial
  rename_i set hset
  split_ifs with hphase hrefs
  · have hcounted := h.wellCounted hset
    refine h.set_planSet hset rfl rfl rfl ⟨?_, ?_⟩ ?_ ?_
    · have hsum := hcounted.refs
      rw [PlanSet.ownerRefs, hphase.1] at hsum
      simp only [PlanSet.ownerRefs, if_true]
      simp at hsum
      omega
    · intro hfinalized
      have hreleased := (hcounted.finalized hfinalized).1
      rw [hphase.1] at hreleased
      contradiction
    · simp only [PlanSet.activity, hphase.1]
    · simp only [PlanSet.listed, hphase.1]
  · exact h
  · trivial

/-- `Commit` counts the set, which was not active before. -/
theorem World.Consistent.countCommitted (index : Nat) :
    (world.countCommitted index).Ensures World.Consistent := by
  unfold World.countCommitted
  split
  · trivial
  rename_i set hset
  split_ifs with hphase
  · have hcounted := h.wellCounted hset
    refine ⟨h.owned.set_planSet hset (by rfl) (by rfl) (by rfl)
        (by exact Registry.table_congr rfl rfl rfl rfl rfl),
      ⟨forall_mem_set h.booked.counted (hcounted.turn (by simp [hphase]) (by simp)), ?_,
        h.booked.live, h.booked.registers.set_same hset ?_⟩⟩
    · obtain ⟨rest, hbefore, hafter⟩ := exists_total_set PlanSet.activity hset
      have hactive := h.booked.active
      have hidle : set.activity = 0 := by simp only [PlanSet.activity, hphase]
      rw [hbefore, hidle] at hactive
      rw [hafter]
      show world.registry.activePlanSets + 1 = 1 + rest
      omega
    · simp only [PlanSet.listed, hphase]
  · trivial

/-- A set that is being retired is counted, so its count does not underflow. -/
theorem World.Consistent.registerRetired (index : Nat) :
    (world.registerRetired index).Ensures World.Consistent := by
  unfold World.registerRetired
  split
  · trivial
  rename_i set hset
  split_ifs with hphase hactive
  · have hmem := le_total (f := PlanSet.activity) (fun set => by
      unfold PlanSet.activity
      split <;> decide) (List.mem_of_getElem? hset)
    have hone : set.activity = 1 := by simp only [PlanSet.activity, hphase]
    rw [← h.booked.active, hone] at hmem
    exact absurd hactive (by omega)
  · have hcounted := h.wellCounted hset
    apply World.Consistent.notify
    refine ⟨h.owned.set_planSet hset (by rfl) (by rfl) (by rfl)
        (by exact Registry.table_congr rfl rfl rfl rfl rfl),
      ⟨forall_mem_set h.booked.counted (hcounted.turn (by simp [hphase]) (by simp)), ?_,
        h.booked.live, ?_⟩⟩
    · obtain ⟨rest, hbefore, hafter⟩ := exists_total_set PlanSet.activity hset
      have hsum := h.booked.active
      have hone : set.activity = 1 := by simp only [PlanSet.activity, hphase]
      rw [hbefore, hone] at hsum
      rw [hafter]
      show world.registry.activePlanSets - 1 = 0 + rest
      omega
    · have hregisters := h.booked.registers
      rw [List.append_nil] at hregisters ⊢
      refine hregisters.list hset ?_ ?_
      · simp only [PlanSet.listed, hphase]
      · simp [PlanSet.listed, hcounted.not_finalized (by simp [hphase])]
  · trivial

end PlanSets

/-! ## Steps that move references -/

theorem World.Booked.of_frame {reaping : List Nat} (h : world.Booked reaping)
    (hframe : world.registry.SameFrame registry) {candidates : List Candidate}
    {pending delivered : List Notification} :
    World.Booked
      { registry := registry
        candidates := candidates
        sets := world.sets
        leases := world.leases
        pending := pending
        delivered := delivered } reaping := by
  refine ⟨h.counted, hframe.activePlanSets.trans h.active, hframe.liveTunnelLeases.trans h.live, ?_⟩
  show Registers (registry.retired ++ reaping) world.sets
  rw [hframe.retired]
  exact h.registers

/-- An owner has given its references back; `next` is the world without it. -/
theorem World.Owned.of_released {next : World} {held : Demand} {owned : ResourceRefs}
    (hreleased : world.registry.Released held owned next.registry)
    (hholdings : next.holdings = held) (hpinned : next.PinnedIn world.registry) : next.Owned := by
  subst hholdings
  exact ⟨hreleased.accounts, hpinned.keep hreleased.runtime⟩

section References

variable (h : world.Consistent)

include h

theorem World.Consistent.prepareAllowed :
    world.prepareAllowed.Ensures World.Consistent := by
  unfold World.prepareAllowed
  split
  · exact h.notify _
  · exact h

/-- `Prepare` does not panic. -/
theorem World.Consistent.prepareCall (platform : Platform)
    (resources : ResourceSet) :
    ∃ next result, world.prepareCall platform resources = some (next, result) ∧
      next.Consistent := by
  unfold World.prepareCall
  split
  · exact ⟨_, _, rfl, h.notify _⟩
  rename_i normalized _
  split
  · exact ⟨_, _, rfl, h.notify _⟩
  rename_i materials _
  split
  · exact ⟨_, _, rfl, h.notify _⟩
  obtain ⟨next, cause, stats, cleanup, hresult, hframe, htable, _⟩ |
    ⟨next, plans, owned, stats, hresult, hacquired⟩ :=
    h.owned.accounts.prepareLocked platform materials normalized
  · rw [hresult]
    refine ⟨_, _, rfl, World.Consistent.notify ?_ _⟩
    exact ⟨h.owned.congr htable rfl
      ⟨h.owned.pinned.candidates, h.owned.pinned.sets, h.owned.pinned.leases⟩,
      h.booked.of_frame hframe⟩
  · rw [hresult]
    refine ⟨_, _, rfl, World.Consistent.notify ?_ _⟩
    have hkeep : world.PinnedIn next := by
      refine h.owned.pinned.keep ?_
      intro kind key hkey
      obtain ⟨value, hvalue⟩ := h.owned.accounts.exists_runtime hkey
      rw [hvalue]
      exact hacquired.runtime kind key value hvalue
    refine ⟨⟨?_, ⟨forall_mem_concat hkeep.candidates fun _ => hacquired.pinned,
      hkeep.sets, hkeep.leases⟩⟩, h.booked.of_frame hacquired.frame⟩
    show next.Accounts (total Candidate.demand (world.candidates ++ [_]) + _ + _)
    have hdemand : Candidate.demand ⟨plans, owned, stats, .prepared⟩ = owned.demand := rfl
    rw [total_concat, hdemand, add_comm (total Candidate.demand world.candidates), add_assoc,
      add_assoc, ← add_assoc (total Candidate.demand world.candidates)]
    exact hacquired.accounts

theorem World.Consistent.prepare (platform : Platform)
    (resources : ResourceSet) : (world.prepare platform resources).Ensures World.Consistent := by
  obtain ⟨next, result, hnext, hconsistent⟩ := h.prepareCall platform resources
  rw [World.prepare, hnext]
  exact hconsistent

/-- `Commit` moves the references of the candidate to the new plan set. -/
theorem World.Consistent.commit (index : Nat) :
    (world.commit index).Ensures World.Consistent := by
  unfold World.commit
  split
  · trivial
  rename_i candidate hcandidate
  split_ifs with hdone
  · exact h
  have hphase : candidate.phase = .prepared := by
    simpa [Candidate.done] using hdone
  have hopen : candidate.phase ≠ .finished := by simp [hphase]
  have hmem := List.mem_of_getElem? hcandidate
  refine ⟨h.owned.congr rfl ?_ ⟨?_, ?_, h.owned.pinned.leases⟩, ⟨?_, ?_, h.booked.live, ?_⟩⟩
  · obtain ⟨rest, hbefore, hafter⟩ := exists_total_set Candidate.demand hcandidate
    simp only [World.holdings, hbefore, hafter, total_concat]
    have hfrom : candidate.demand = candidate.owned.demand := if_neg hopen
    have hto : PlanSet.demand ⟨candidate.plans, candidate.owned, 1, false, .committing, 0⟩ =
      candidate.owned.demand := rfl
    have hnone : Candidate.demand { candidate with owned := .empty, phase := .finished } = 0 :=
      rfl
    rw [hfrom, hto, hnone]
    abel
  · refine forall_mem_set h.owned.pinned.candidates ?_
    intro hfinished
    exact absurd rfl hfinished
  · refine forall_mem_concat h.owned.pinned.sets ?_
    intro _
    exact h.owned.pinned.candidates candidate hmem hopen
  · exact forall_mem_concat h.booked.counted ⟨rfl, by simp⟩
  · rw [total_concat]
    show _ = _ + (0 : Int)
    rw [add_zero]
    exact h.booked.active
  · exact h.booked.registers.concat rfl

theorem World.Consistent.rollback (index : Nat) :
    (world.rollback index).Ensures World.Consistent := by
  unfold World.rollback
  split
  · trivial
  rename_i candidate hcandidate
  split_ifs with hdone
  · exact h
  have hphase : candidate.phase = .prepared := by
    simpa [Candidate.done] using hdone
  have hopen : candidate.phase ≠ .finished := by simp [hphase]
  refine ⟨h.owned.congr rfl ?_ ⟨?_, h.owned.pinned.sets, h.owned.pinned.leases⟩,
    h.booked.of_frame (.refl _)⟩
  · have hsame : Candidate.demand { candidate with phase := .rollingBack } =
        candidate.demand := (if_neg hopen).symm
    simp only [World.holdings, total_set_of_eq hcandidate hsame]
  · refine forall_mem_set h.owned.pinned.candidates ?_
    intro _
    exact h.owned.pinned.candidates candidate (List.mem_of_getElem? hcandidate) hopen

theorem World.Consistent.rollbackRelease (index : Nat) :
    (world.rollbackRelease index).Ensures World.Consistent := by
  unfold World.rollbackRelease
  split
  · trivial
  rename_i candidate hcandidate
  split_ifs with hphase
  · have hopen : candidate.phase ≠ .finished := by simp [hphase]
    obtain ⟨rest, hbefore, hafter⟩ := exists_total_set Candidate.demand hcandidate
    have haccounts := h.owned.accounts
    have hfrom : candidate.demand = candidate.owned.demand := if_neg hopen
    rw [World.holdings, hbefore, hfrom, add_assoc, add_assoc] at haccounts
    obtain ⟨next, cleanup, closed, hrelease, hreleased⟩ := haccounts.releaseRefsLocked
    rw [hrelease]
    apply World.Consistent.notify
    refine ⟨.of_released hreleased ?_ ⟨?_, h.owned.pinned.sets, h.owned.pinned.leases⟩,
      h.booked.of_frame hreleased.frame⟩
    · simp only [World.holdings, hafter, Candidate.demand, if_true, zero_add, add_assoc]
    · refine forall_mem_set h.owned.pinned.candidates ?_
      intro hfinished
      exact absurd rfl hfinished
  · trivial

theorem World.Consistent.releaseLease (index : Nat) :
    (world.releaseLease index).Ensures World.Consistent := by
  unfold World.releaseLease
  split
  · trivial
  rename_i lease hlease
  split_ifs with hphase
  · have hheld : lease.phase ≠ .released := by simp [hphase]
    have hdemand : TunnelLease.demand { lease with phase := .releasing } = lease.demand :=
      (if_neg hheld).symm
    have hlive : TunnelLease.liveness { lease with phase := .releasing } = lease.liveness :=
      (if_neg hheld).symm
    refine ⟨h.owned.congr rfl ?_ ⟨h.owned.pinned.candidates, h.owned.pinned.sets, ?_⟩,
      ⟨h.booked.counted, h.booked.active, ?_, h.booked.registers⟩⟩
    · simp only [World.holdings, total_set_of_eq hlease hdemand]
    · refine forall_mem_set h.owned.pinned.leases ?_
      intro _
      exact h.owned.pinned.leases lease (List.mem_of_getElem? hlease) hheld
    · rw [total_set_of_eq hlease hlive]
      exact h.booked.live
  · exact h

end References

/-- Only the demand for transports changes. -/
theorem Registry.Accounts.of_transports {next : Registry} {held other : Demand}
    (h : registry.Accounts held)
    (htable : ∀ kind ≠ .transport, next.table kind = registry.table kind)
    (hsame : ∀ kind ≠ .transport, other kind = held kind)
    (hcounts : Counts next.transports (other .transport)) : next.Accounts other := by
  intro kind
  by_cases hkind : kind = .transport
  · subst hkind
    exact hcounts
  · rw [htable kind hkind, hsame kind hkind]
    exact h kind

theorem table_addLease (registry : Registry) (key : TransportKey) (runtime : TransportRuntime) :
    ∀ kind ≠ .transport, (registry.addLease key runtime).table kind = registry.table kind := by
  intro kind hkind
  cases kind <;> first | rfl | exact absurd rfl hkind

theorem table_dropLease (registry : Registry) (transports : Table TransportKey TransportRuntime) :
    ∀ kind ≠ .transport, (registry.dropLease transports).table kind = registry.table kind := by
  intro kind hkind
  cases kind <;> first | rfl | exact absurd rfl hkind

/-- A lease is one more reference to an entry that exists. -/
theorem World.Consistent.acquireTunnelLease (h : world.Consistent) (key : TransportKey)
    (runtime : TransportRuntime) :
    (world.acquireTunnelLease key runtime).Ensures World.Consistent := by
  unfold World.acquireTunnelLease
  split
  · exact h
  rename_i entry hentry
  split_ifs with hrefused
  · exact h
  rw [not_or, not_not] at hrefused
  have hkeep : world.PinnedIn (world.registry.addLease key runtime) := by
    refine h.owned.pinned.keep ?_
    intro kind other hother
    obtain ⟨value, hvalue⟩ := h.owned.accounts.exists_runtime hother
    by_cases hkind : kind = .transport
    · subst hkind
      rw [hvalue]
      exact runtime?_acquire_of_some hvalue
    · rw [table_addLease _ _ _ kind hkind]
  have hcounted : (counted world.registry.transports key runtime).runtime = runtime := by
    rw [counted, hentry]
    exact hrefused.1
  have hdemand : TunnelLease.demand ⟨key, runtime, .held⟩ = Pi.single .transport {key} := rfl
  refine ⟨⟨?_, ⟨hkeep.candidates, hkeep.sets, forall_mem_concat hkeep.leases ?_⟩⟩,
    ⟨h.booked.counted, h.booked.active, ?_, h.booked.registers⟩⟩
  · refine h.owned.accounts.of_transports (table_addLease _ key runtime) ?_ ?_
    · intro kind hkind
      simp only [World.holdings, total_concat, hdemand, Pi.add_apply,
        Pi.single_eq_of_ne hkind, add_zero]
    · simp only [World.holdings, total_concat, hdemand, ← add_assoc]
      rw [Pi.add_apply, Pi.single_eq_same, add_comm, Multiset.singleton_add]
      exact (h.owned.accounts .transport).acquire key runtime
  · intro _
    exact (runtime?_acquire_self key runtime).trans (congrArg some hcounted)
  · rw [total_concat, ← h.booked.live]
    rfl

/-- The entry of an unreleased lease is still there, and the lease is counted. -/
theorem World.Consistent.releaseLeaseLocked (h : world.Consistent) (index : Nat) :
    (world.releaseLeaseLocked index).Ensures World.Consistent := by
  unfold World.releaseLeaseLocked
  split
  · trivial
  rename_i lease hlease
  split_ifs with hphase hwrong
  · have hheld : lease.phase ≠ .released := by simp [hphase]
    have hmem := List.mem_of_getElem? hlease
    have hlive := le_total (f := TunnelLease.liveness) (fun lease => by
      unfold TunnelLease.liveness
      split_ifs <;> decide) hmem
    rw [← h.booked.live, TunnelLease.liveness, if_neg hheld] at hlive
    rcases hwrong with hruntime | hcount
    · exact hruntime (h.owned.pinned.leases lease hmem hheld)
    · exact absurd hcount (by omega)
  · have hheld : lease.phase ≠ .released := by simp [hphase]
    obtain ⟨rest, hbefore, hafter⟩ := exists_total_set TunnelLease.demand hlease
    obtain ⟨others, hlives, hlived⟩ := exists_total_set TunnelLease.liveness hlease
    have hdemand : lease.demand = Pi.single .transport {lease.key} := if_neg hheld
    have hgone : TunnelLease.demand { lease with phase := .released } = 0 := rfl
    have hlive : lease.liveness = 1 := if_neg hheld
    have hafter' := hafter { lease with phase := .released }
    rw [hgone, zero_add] at hafter'
    have hcounts := h.owned.accounts .transport
    rw [World.holdings, hbefore, hdemand, ← hafter', add_left_comm, Pi.add_apply,
      Pi.single_eq_same, Multiset.singleton_add] at hcounts
    obtain ⟨transports, dropped, hrelease, hnext, _, hkeep⟩ := hcounts.release
    simp only [Registry.table] at hrelease
    rw [hrelease]
    apply World.Consistent.notify
    have hpinned : World.PinnedIn
        { world with
          registry := world.registry.dropLease transports
          leases := world.leases.set index { lease with phase := .released } }
        world.registry := by
      refine ⟨h.owned.pinned.candidates, h.owned.pinned.sets,
        forall_mem_set h.owned.pinned.leases ?_⟩
      intro hreleased
      exact absurd rfl hreleased
    refine ⟨⟨h.owned.accounts.of_transports (table_dropLease _ transports) ?_ hnext,
      hpinned.keep ?_⟩, ⟨h.booked.counted, h.booked.active, ?_, h.booked.registers⟩⟩
    · intro kind hkind
      simp only [World.holdings, hafter', hbefore, hdemand, Pi.add_apply,
        Pi.single_eq_of_ne hkind, zero_add]
    · intro kind other hother
      by_cases hkind : kind = .transport
      · subst hkind
        exact hkeep other hother
      · rw [table_dropLease _ _ kind hkind]
    · have hsum := h.booked.live
      rw [hlives, hlive] at hsum
      rw [hlived]
      show world.registry.liveTunnelLeases - 1 = 0 + others
      omega
  · trivial

/-! ## Reaping -/

theorem PlanSet.WellCounted.drained (h : set.WellCounted) (hrefs : set.refs = 0) :
    set.phase = .released ∧ set.holders = 0 := by
  have hsum := h.refs
  unfold PlanSet.ownerRefs at hsum
  split_ifs at hsum with hphase
  · exact ⟨hphase, by omega⟩
  · omega

/-- The loop that finalizes: every set it takes is drained and still owns what it
owned, so nothing is released twice. -/
theorem finalizeAll_consistent (indices : List Nat) (world : World) (cleanup : CleanupStats)
    (howned : world.Owned) (hbooked : world.Booked indices)
    (hdrained : ∀ index ∈ indices, ∃ set, world.sets[index]? = some set ∧
      set.finalized = false ∧ set.refs = 0) :
    ∃ next total, World.finalizeAll indices world cleanup = some (next, total) ∧
      next.Consistent := by
  induction indices generalizing world cleanup with
  | nil => exact ⟨world, cleanup, rfl, howned, hbooked⟩
  | cons index rest ih =>
    obtain ⟨set, hset, hlive, hrefs⟩ := hdrained index List.mem_cons_self
    have hcounted := hbooked.counted set (List.mem_of_getElem? hset)
    obtain ⟨hphase, hholders⟩ := hcounted.drained hrefs
    obtain ⟨others, hbefore, hafter⟩ := exists_total_set PlanSet.demand hset
    have hdemand : set.demand = set.owned.demand := by
      rw [PlanSet.demand, hlive]
      rfl
    have haccounts := howned.accounts
    rw [World.holdings, hbefore, hdemand, add_left_comm, add_assoc, add_assoc] at haccounts
    obtain ⟨registry, released, closed, hrelease, hreleased⟩ := haccounts.releaseRefsLocked
    have hnot : index ∉ rest := by
      have hnodup := (List.nodup_append.mp hbooked.registers.nodup).2.1
      exact (List.nodup_cons.mp hnodup).1
    simp only [World.finalizeAll, hset, hrelease]
    refine ih _ _ (.of_released hreleased ?_ ⟨howned.pinned.candidates, ?_, howned.pinned.leases⟩)
      ⟨?_, ?_, hreleased.frame.liveTunnelLeases.trans hbooked.live, ?_⟩ ?_
    · simp only [World.holdings, hafter, PlanSet.demand, if_true, zero_add, add_assoc]
    · refine forall_mem_set howned.pinned.sets ?_
      intro hfinalized
      exact nomatch hfinalized
    · exact forall_mem_set hbooked.counted ⟨hcounted.refs, fun _ => ⟨hphase, hholders⟩⟩
    · have hsame : PlanSet.activity { set with owned := .empty, finalized := true } =
          set.activity := rfl
      rw [total_set_of_eq hset hsame]
      exact hreleased.frame.activePlanSets.trans hbooked.active
    · show Registers (registry.retired ++ rest) _
      rw [hreleased.frame.retired]
      refine hbooked.registers.unlist hset ?_
      simp [PlanSet.listed, hphase]
    · intro other hother
      obtain ⟨found, hfound, hkept⟩ := hdrained other (List.mem_cons_of_mem _ hother)
      refine ⟨found, ?_, hkept⟩
      have hne : index ≠ other := fun heq => hnot (heq ▸ hother)
      rw [List.getElem?_set_ne hne]
      exact hfound

theorem World.Drained.of_finalizes {drained : List Nat} (h : world.Drained drained)
    (hfinalizes : world.finalizes drained index = true) :
    ∃ set, world.sets[index]? = some set ∧ set.finalized = false ∧ set.refs = 0 := by
  unfold World.finalizes at hfinalizes
  split at hfinalizes
  · contradiction
  rename_i set hset
  rw [Bool.and_eq_true, List.contains_iff_mem, Bool.not_eq_true'] at hfinalizes
  obtain ⟨found, hfound, hrefs⟩ := h index hfinalizes.1
  obtain rfl := Option.some.inj (hset.symm.trans hfound)
  exact ⟨set, hset, hfinalizes.2, hrefs⟩

theorem World.Consistent.reapNow (h : world.Consistent) (drained : List Nat) :
    (world.reapNow drained).Ensures World.Consistent := by
  unfold World.reapNow
  split_ifs with hzero
  · dsimp only
    have hperm : (world.registry.retired.filter fun index => !world.finalizes drained index) ++
        world.registry.retired.filter (world.finalizes drained) |>.Perm world.registry.retired :=
      List.perm_append_comm.trans (List.filter_append_perm _ _)
    have hregisters := h.booked.registers
    rw [List.append_nil] at hregisters
    obtain ⟨next, cleanup, hnext, hconsistent⟩ := finalizeAll_consistent
      (world.registry.retired.filter (world.finalizes drained))
      { world with registry := { world.registry with
        retired := world.registry.retired.filter fun index => !world.finalizes drained index } }
      .zero
      (h.owned.congr (Registry.table_congr rfl rfl rfl rfl rfl) rfl
        ⟨h.owned.pinned.candidates, h.owned.pinned.sets, h.owned.pinned.leases⟩)
      ⟨h.booked.counted, h.booked.active, h.booked.live, hregisters.of_perm hperm.symm⟩
      (fun index hindex => World.Drained.of_finalizes hzero (List.mem_filter.mp hindex).2)
    rw [hnext]
    split_ifs
    · exact hconsistent
    · exact hconsistent.notify _
  · trivial


/-! ## Every interleaving -/

theorem World.Consistent.step (h : world.Consistent) (platform : Platform) (action : Action) :
    (world.step platform action).Ensures World.Consistent := by
  cases action with
  | prepareAllowed => exact h.prepareAllowed
  | prepare resources => exact h.prepare platform resources
  | commit candidate => exact h.commit candidate
  | countCommitted set => exact h.countCommitted set
  | rollback candidate => exact h.rollback candidate
  | rollbackRelease candidate => exact h.rollbackRelease candidate
  | tryAcquire set current => exact h.tryAcquire set current
  | releaseLoad set => exact h.releaseLoad set
  | releaseSwap set current => exact h.releaseSwap set current
  | retire set => exact h.retire set
  | registerRetired set => exact h.registerRetired set
  | ownerLoad set => exact h.ownerLoad set
  | ownerSwap set current => exact h.ownerSwap set current
  | reapNow drained => exact h.reapNow drained
  | acquireTunnelLease key runtime => exact h.acquireTunnelLease key runtime
  | releaseLease lease => exact h.releaseLease lease
  | releaseLeaseLocked lease => exact h.releaseLeaseLocked lease
  | close =>
    exact ⟨h.owned.congr (Registry.table_congr rfl rfl rfl rfl rfl) rfl
      ⟨h.owned.pinned.candidates, h.owned.pinned.sets, h.owned.pinned.leases⟩,
      ⟨h.booked.counted, h.booked.active, h.booked.live, h.booked.registers⟩⟩
  | deliver index =>
    simp only [World.step]
    split
    · trivial
    · exact ⟨h.owned.congr rfl rfl
        ⟨h.owned.pinned.candidates, h.owned.pinned.sets, h.owned.pinned.leases⟩,
        ⟨h.booked.counted, h.booked.active, h.booked.live, h.booked.registers⟩⟩

theorem World.Reachable.consistent {platform : Platform} {maxRetiredSnapshots : Nat}
    (h : World.Reachable platform maxRetiredSnapshots world) : world.Consistent :=
  Runs.ensures (fun _ action hbefore => hbefore.step platform action) h
    (initial_consistent maxRetiredSnapshots)

theorem holdings_eq_zero
    (hcandidates : ∀ candidate ∈ world.candidates, candidate.phase = .finished)
    (hsets : ∀ set ∈ world.sets, set.finalized = true)
    (hleases : ∀ lease ∈ world.leases, lease.phase = .released) : world.holdings = 0 := by
  have hfirst : total Candidate.demand world.candidates = 0 :=
    total_eq_zero fun candidate hmem => if_pos (hcandidates candidate hmem)
  have hsecond : total PlanSet.demand world.sets = 0 :=
    total_eq_zero fun set hmem => if_pos (hsets set hmem)
  have hthird : total TunnelLease.demand world.leases = 0 :=
    total_eq_zero fun lease hmem => if_pos (hleases lease hmem)
  rw [World.holdings, hfirst, hsecond, hthird, add_zero, add_zero]

/-- In every state that an interleaving reaches: an entry exists exactly when its
key is held, and its count is the number of times it is held; no action runs into
one of the reference underflows; without an owner nothing is left; and every
runtime that the plans of a set point to is registered while a reference to the
set is held. -/
theorem references_conserved (platform : Platform) (maxRetiredSnapshots : Nat) (world : World)
    (h : World.Reachable platform maxRetiredSnapshots world) :
    (∀ kind key, (∀ entry, (world.registry.table kind).lookup key = some entry →
        0 < entry.refs ∧ entry.refs = (world.holdings kind).count key) ∧
      ((world.registry.table kind).lookup key = none → (world.holdings kind).count key = 0)) ∧
    (∀ action cause, world.step platform action ≠ .panicked cause) ∧
    ((∀ candidate ∈ world.candidates, candidate.phase = .finished) →
      (∀ set ∈ world.sets, set.finalized = true) →
      (∀ lease ∈ world.leases, lease.phase = .released) →
      ∀ kind key, (world.registry.table kind).lookup key = none) ∧
    (∀ set ∈ world.sets, set.refs = set.ownerRefs + set.holders) ∧
    ∀ set ∈ world.sets, 0 < set.refs →
      ∀ plan ∈ set.plans, plan.2.IsPinned world.registry set.owned := by
  have hconsistent := h.consistent
  refine ⟨?_, ?_, ?_, ?_, ?_⟩
  · intro kind key
    refine ⟨?_, ?_⟩
    · intro entry hentry
      have hrefs := (hconsistent.owned.accounts kind).refs_eq hentry
      exact ⟨hrefs.2, hrefs.1⟩
    · intro hnone
      exact Multiset.count_eq_zero.mpr
        ((hconsistent.owned.accounts kind).lookup_eq_none_iff.mp hnone)
  · intro action cause hpanic
    have hensures := hconsistent.step platform action
    rw [hpanic] at hensures
    exact hensures
  · intro hcandidates hsets hleases kind key
    have haccounts := hconsistent.owned.accounts
    rw [holdings_eq_zero hcandidates hsets hleases] at haccounts
    exact (haccounts kind).lookup_eq_none_iff.mpr (Multiset.notMem_zero key)
  · intro set hset
    exact (hconsistent.booked.counted set hset).refs
  · intro set hset hrefs plan hplan
    have hcounted := hconsistent.booked.counted set hset
    refine hconsistent.owned.pinned.sets set hset ?_ plan hplan
    by_contra hfinalized
    obtain ⟨hphase, hholders⟩ := hcounted.finalized (by simpa using hfinalized)
    have hsum := hcounted.refs
    rw [PlanSet.ownerRefs, if_pos hphase, hholders] at hsum
    omega

/-- A platform on which every URL is the same. -/
def samplePlatform : Platform where
  tables := .asciiOnly
  parseURL _ := .ok
    ⟨ascii "http", [], false, ascii "app:80", ascii "app", ascii "80", [], [], [], []⟩
  unmapAddr := id
  sha256 := id
  xxhash text := text.foldl (fun sum byte => 257 * sum + byte.toUInt64) 1

/-- An upstream with one endpoint, an active check and a retry budget. -/
def sampleUpstream : Upstream where
  id := ascii "app"
  endpoints := [⟨ascii "http://app:80", 1⟩]
  balancer := ⟨.weightedRoundRobin, []⟩
  transport := ⟨.http1, none, second, second, second, 1, 1⟩
  health := ⟨some ⟨.tcp, second, second, second, 1, 0, 1, 1, [], [], [], []⟩, none⟩
  retry := ⟨2, [ascii "get"], ⟨true, false, false, [503]⟩, ⟨100, 10, 10⟩, second⟩

def sampleResources : ResourceSet :=
  ⟨[], [], [sampleUpstream], [], none, []⟩

/-- A set that was retired while a request still holds it. -/
theorem references_conserved_retired :
    ∃ world, World.Reachable samplePlatform 4 world ∧
      (world.sets.map PlanSet.refs, world.registry.retired, world.registry.health.keys.card) =
        ([1], [0], 1) ∧
      ∀ set ∈ world.sets, 0 < set.refs →
        ∀ plan ∈ set.plans, plan.2.IsPinned world.registry set.owned := by
  have hrun : (runAll (World.step samplePlatform)
      [.prepare sampleResources, .commit 0, .countCommitted 0, .tryAcquire 0 1, .retire 0,
        .registerRetired 0, .ownerSwap 0 2] (World.initial 4)).map (fun world =>
        (world.sets.map PlanSet.refs, world.registry.retired, world.registry.health.keys.card)) =
      some ([1], [0], 1) := by
    decide +kernel
  obtain ⟨world, hworld, hshape⟩ := Option.map_eq_some_iff.mp hrun
  have hreach : World.Reachable samplePlatform 4 world := runs_of_runAll hworld
  exact ⟨world, hreach, hshape, (references_conserved samplePlatform 4 world hreach).2.2.2.2⟩

end GGateway.Upstream
