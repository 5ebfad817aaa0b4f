import Kdive.Domain.Pcie
import Kdive.Platform.Sizing
import Mathlib.Data.Set.Card

/-! # Reusing a System: `domain/system_reuse.py`

`snapshot_satisfies` asks for each listed spec whether some claimed device is of its kind. A device answers for a spec
as often as it is listed (`one_device_twice`), where `resolve_multiset` gives each its own: it takes as many devices of
a kind as there are specs for it (`resolves_iff`). `snapshotSatisfies_iff` says exactly where the two agree.
-/

namespace Kdive.Sizing
open List

structure ReuseRequirement where
  vcpus : Option Int := none
  memoryGb : Option Int := none
  diskGb : Option Int := none
  pcie : List String := []

def parseVendorDevice (spec : String) : Except Err (String × String) := do
  match ← parseMatchSpec spec with
  | .vendorDevice vendorId deviceId => .ok (vendorId, deviceId)
  | .deviceClass _ =>
    .error (.configuration [.text "PCIe match spec ", .quoted spec, .text (" is not a vendor:device spec; a class= " ++
      "spec cannot be matched against an allocation's pcie_claim")] [("spec", .text spec)])

def pcieClaimsContainAll (claims : List PCIeClaim) (specs : List String) : Except Err Bool := do
  let parsed ← specs.mapM parseVendorDevice
  .ok (parsed.all fun ids => claims.any fun claim => claim.vendorId = ids.1 && claim.deviceId = ids.2)

/-- Every asserted axis is at most the snapshot's. -/
def ReuseRequirement.fits (req : ReuseRequirement) (sizing : AllocationSizing) : Bool :=
  !(req.vcpus.any (sizing.vcpu < ·) || req.memoryGb.any (sizing.memoryMb < · * mbPerGb) ||
    req.diskGb.any (sizing.diskGb < ·))

def snapshotSatisfies (sizing : AllocationSizing) (claims : List PCIeClaim) (req : ReuseRequirement) :
    Except Err Bool := do
  let pcieOk ← pcieClaimsContainAll claims req.pcie
  .ok (if req.fits sizing then pcieOk else false)

/-- A claimed device as a host would advertise it. -/
def descriptorOfClaim (claim : PCIeClaim) : PCIeDescriptor := ⟨claim.bdf, claim.vendorId, claim.deviceId, "", ""⟩

/-- `resolve_multiset` over the claimed devices, with no other claims. -/
def Resolves (claims : List PCIeClaim) (specs : List String) : Prop :=
  ∃ devices, resolveMultiset specs (claims.map descriptorOfClaim) [] = .ok ⟨.matched, devices⟩

def specOf (ids : String × String) : MatchSpec := .vendorDevice ids.1 ids.2

variable {claims : List PCIeClaim} {specs : List String} {parsed : List (String × String)}

theorem mapM_parseMatchSpec (h : specs.mapM parseVendorDevice = .ok parsed) :
    specs.mapM parseMatchSpec = .ok (parsed.map specOf) := by
  induction specs generalizing parsed with
  | nil =>
    cases h
    rfl
  | cons spec specs ih =>
    rw [mapM_cons] at h ⊢
    cases hspec : parseMatchSpec spec with
    | error => simp [parseVendorDevice, hspec, bind, Except.bind] at h
    | ok s =>
      cases s with
      | deviceClass => simp [parseVendorDevice, hspec, bind, Except.bind] at h
      | vendorDevice =>
        cases hrest : specs.mapM parseVendorDevice with
        | error => simp [parseVendorDevice, hspec, hrest, bind, Except.bind] at h
        | ok =>
          simp only [parseVendorDevice, hspec, hrest, bind, Except.bind, pure, Except.pure, Except.ok.injEq] at h
          subst h
          rw [ih hrest]
          rfl

/-- The kind of a claimed device, as a spec names it. -/
def idsOf (claim : PCIeClaim) : String × String := (claim.vendorId, claim.deviceId)

theorem pcieClaimsContainAll_iff (hp : specs.mapM parseVendorDevice = .ok parsed) :
    pcieClaimsContainAll claims specs = .ok true ↔ ∀ ids ∈ parsed, ids ∈ claims.map idsOf := by
  simp only [pcieClaimsContainAll, hp, bind, Except.bind, Except.ok.injEq, all_eq_true, any_eq_true, mem_map, idsOf,
    Bool.and_eq_true, decide_eq_true_eq, Prod.ext_iff]

theorem mayHave_iff {u v : Nat} : mayHave (parsed.map specOf) (claims.map descriptorOfClaim) u v = true ↔
    ∃ ids, parsed[u]? = some ids ∧ (claims.map idsOf)[v]? = some ids := by
  unfold mayHave
  cases hu : parsed[u]? with
  | none => simp [hu]
  | some ids =>
    cases hv : claims[v]? with
    | none => simp [hu, hv]
    | some claim =>
      simp only [getElem?_map, hu, hv, Option.map_some, Option.some.injEq, specOf, descriptorMatches,
        descriptorOfClaim, Bool.and_eq_true, decide_eq_true_eq, idsOf, exists_eq_left']
      exact (Prod.ext_iff (x := (claim.vendorId, claim.deviceId))).symm

/-- The places of a list that hold a value. -/
def places {α : Type} [DecidableEq α] (l : List α) (a : α) : Finset Nat :=
  (Finset.range l.length).filter fun u => l[u]? = some a

theorem card_places {α : Type} [DecidableEq α] [BEq α] [LawfulBEq α] (l : List α) (a : α) :
    (places l a).card = l.count a := by
  induction l using List.reverseRecOn with
  | nil => rfl
  | append_singleton l b ih =>
    have hsame : (Finset.range l.length).filter (fun u => (l ++ [b])[u]? = some a) = places l a := by
      refine Finset.filter_congr fun u hu => ?_
      rw [getElem?_append_left (Finset.mem_range.mp hu)]
    rw [places, length_append, length_singleton, Finset.range_add_one, Finset.filter_insert, hsame, count_append,
      count_singleton, ← ih, getElem?_concat_length]
    by_cases hb : b = a
    · rw [if_pos (congrArg some hb), Finset.card_insert_of_notMem (by simp [places])]
      simp [hb]
    · simp [hb]

theorem shares_iff : (∃ f, Shares (parsed.map specOf) (claims.map descriptorOfClaim) f) ↔
    ∀ ids, parsed.count ids ≤ (claims.map idsOf).count ids := by
  simp only [← card_places]
  constructor
  · rintro ⟨f, hf⟩ ids
    refine Finset.card_le_card_of_injOn f (fun u hu => ?_) (hf.injOn.mono fun u hu => ?_)
    · obtain ⟨hu, hids⟩ := Finset.mem_filter.mp hu
      obtain ⟨hmay, hlt⟩ := hf.edge u (by simpa using hu)
      obtain ⟨ids', hids', hdevice⟩ := mayHave_iff.mp hmay
      rw [hids, Option.some.injEq] at hids'
      exact Finset.mem_coe.mpr (Finset.mem_filter.mpr ⟨by simpa using hlt, hids' ▸ hdevice⟩)
    · simpa using (Finset.mem_filter.mp hu).1
  · intro hle
    -- Each kind's specs go to that kind's devices; two kinds share none.
    have hkind : ∀ ids, ∃ f : Nat → Nat, (places parsed ids : Set Nat) ⊆ Set.preimage f (places (claims.map idsOf) ids) ∧
        Set.InjOn f (places parsed ids) := by
      intro ids
      refine (Finset.finite_toSet _).exists_injOn_of_encard_le ?_
      rw [Set.encard_coe_eq_coe_finsetCard, Set.encard_coe_eq_coe_finsetCard]
      exact Nat.cast_le.mpr (hle ids)
    choose F hmaps hinj using hkind
    have hgoes : ∀ u ∈ (range (parsed.map specOf).length).toFinset, ∃ ids, parsed[u]? = some ids ∧
        u ∈ places parsed ids ∧ F ids u ∈ places (claims.map idsOf) ids := by
      intro u hu
      have hlt : u < parsed.length := by simpa using hu
      have hplace : u ∈ places parsed parsed[u] := by simp [places, hlt]
      exact ⟨parsed[u], getElem?_eq_getElem hlt, hplace, hmaps _ hplace⟩
    refine ⟨fun u => F (parsed[u]?.getD ("", "")) u, fun u hu u' hu' heq => ?_, fun u hu => ?_⟩
    · obtain ⟨ids, hids, hplace, hdevice⟩ := hgoes u hu
      obtain ⟨ids', hids', hplace', hdevice'⟩ := hgoes u' hu'
      simp only [hids, hids', Option.getD_some] at heq
      obtain rfl : ids = ids' := by
        have hsame := (Finset.mem_filter.mp hdevice).2
        rw [heq, (Finset.mem_filter.mp hdevice').2] at hsame
        exact (Option.some.inj hsame).symm
      exact hinj ids hplace hplace' heq
    · obtain ⟨ids, hids, -, hdevice⟩ := hgoes u hu
      obtain ⟨hlt, hkind⟩ := Finset.mem_filter.mp hdevice
      simp only [hids, Option.getD_some]
      exact ⟨mayHave_iff.mpr ⟨ids, hids, hkind⟩, by simpa using hlt⟩

/-- The claimed devices are enough exactly if there are, of each kind, as many as are listed. -/
theorem resolves_iff (hp : specs.mapM parseVendorDevice = .ok parsed) :
    Resolves claims specs ↔ ∀ ids, parsed.count ids ≤ (claims.map idsOf).count ids := by
  have hfree : unclaimed (claims.map descriptorOfClaim) [] = claims.map descriptorOfClaim := by simp [unclaimed]
  rw [← shares_iff]
  constructor
  · rintro ⟨devices, h⟩
    obtain ⟨_, f, hparsed, hf, -⟩ := shares_of_resolveMultiset h
    rw [mapM_parseMatchSpec hp, Except.ok.injEq] at hparsed
    subst hparsed
    exact ⟨f, hfree ▸ hf⟩
  · rintro ⟨f, hf⟩
    exact resolveMultiset_of_shares (mapM_parseMatchSpec hp) (hfree.symm ▸ hf)

/-- `snapshot_satisfies` is right about the devices exactly unless the sizes fit, each spec has a device of its own kind,
    and one of them is listed more often than there are such devices. -/
theorem snapshotSatisfies_iff {sizing : AllocationSizing} {req : ReuseRequirement}
    (hp : req.pcie.mapM parseVendorDevice = .ok parsed) :
    (snapshotSatisfies sizing claims req = .ok true ↔ req.fits sizing = true ∧ Resolves claims req.pcie) ↔
      ¬ (req.fits sizing = true ∧ (∀ ids ∈ parsed, ids ∈ claims.map idsOf) ∧
        ∃ ids, (claims.map idsOf).count ids < parsed.count ids) := by
  have hsatisfies : snapshotSatisfies sizing claims req = .ok true ↔
      req.fits sizing = true ∧ pcieClaimsContainAll claims req.pcie = .ok true := by
    simp only [snapshotSatisfies, pcieClaimsContainAll, hp, bind, Except.bind, Except.ok.injEq]
    split <;> simp_all
  have hmem : (∀ ids, parsed.count ids ≤ (claims.map idsOf).count ids) → ∀ ids ∈ parsed, ids ∈ claims.map idsOf :=
    fun hle ids hids => count_pos_iff.mp ((count_pos_iff.mpr hids).trans_le (hle ids))
  rw [hsatisfies, resolves_iff hp, pcieClaimsContainAll_iff hp]
  simp only [← not_le, ← not_forall]
  tauto

def card : PCIeClaim := ⟨"0000:03:00.0", "8086", "1572"⟩

/-- Two devices of one kind, and the spec listed twice. -/
theorem snapshotSatisfies_two : Resolves [card, { card with bdf := "0000:03:00.1" }] ["8086:1572", "8086:1572"] := by
  have hp : (ReuseRequirement.mk (some 2) none none ["8086:1572", "8086:1572"]).pcie.mapM parseVendorDevice =
    .ok [("8086", "1572"), ("8086", "1572")] := by decide +kernel
  refine (((snapshotSatisfies_iff hp).mpr ?_).mp
    (show snapshotSatisfies ⟨2, 2048, 10⟩ _ _ = .ok true by decide +kernel)).2
  rintro ⟨-, -, ids, hlt⟩
  have heq : ([card, { card with bdf := "0000:03:00.1" }].map idsOf) = [("8086", "1572"), ("8086", "1572")] := rfl
  exact absurd hlt (by rw [heq]; exact lt_irrefl _)

/-- One device serves two specs. -/
theorem one_device_twice : snapshotSatisfies ⟨2, 2048, 10⟩ [card] { pcie := ["8086:1572", "8086:1572"] } = .ok true ∧
    ¬ Resolves [card] ["8086:1572", "8086:1572"] := by
  refine ⟨by decide +kernel, ?_⟩
  rintro ⟨devices, h⟩
  have hcapacity : resolveMultiset ["8086:1572", "8086:1572"] ([card].map descriptorOfClaim) [] =
    .ok ⟨.capacity, []⟩ := by rfl
  rw [hcapacity] at h
  cases h
end Kdive.Sizing
