import Kdive.Domain.Models
import Kdive.Lib.Matching

/-! # PCIe selection: `domain/pcie.py` and `services/allocation/pcie_claim.py`

A request names devices by match specs; a host advertises descriptors. `resolveMultiset` gives each
spec a device of its own among those that no active claim holds, whenever there is a way to (`resolveMultiset_exact`).

The regular expressions of the grammar end in `$`, which also matches before one trailing newline. A
`vendor:device` spec then keeps that newline in its device id, as `split(":")` does (`parseMatchSpec_newline`). What
else is accepted is the grammar as it is documented (`parseMatchSpec_exact`).
-/

namespace Kdive
open List String

structure PCIeDescriptor where
  bdf : String
  vendorId : String
  deviceId : String
  classCode : String
  label : String

inductive MatchOutcome where
  | matched | config | capacity
  deriving DecidableEq

/-- A parsed spec: `kind` with the fields that kind has. -/
inductive MatchSpec where
  | vendorDevice (vendorId deviceId : String)
  | deviceClass (classCode : String)
  deriving DecidableEq

structure SpecResolution where
  outcome : MatchOutcome
  candidates : List PCIeDescriptor

structure MultisetResolution where
  outcome : MatchOutcome
  devices : List PCIeDescriptor

/-! ## The grammar -/

def isLowerHex (c : Char) : Bool := ('0' ≤ c && c ≤ '9') || ('a' ≤ c && c ≤ 'f')

/-- `$`: the end, or a newline and then the end. -/
def atEnd : List Char → Bool
  | [] => true
  | ['\n'] => true
  | _ => false

def isVendorDevice : List Char → Bool
  | a :: b :: c :: d :: ':' :: e :: f :: g :: h :: rest =>
    [a, b, c, d, e, f, g, h].all isLowerHex && atEnd rest
  | _ => false

/-- The group of `_CLASS_RE`, two digits before four. -/
def classGroup : List Char → Option (List Char)
  | 'c' :: 'l' :: 'a' :: 's' :: 's' :: '=' :: a :: b :: rest =>
    if [a, b].all isLowerHex && atEnd rest then some [a, b]
    else
      match rest with
      | c :: d :: rest =>
        if [a, b, c, d].all isLowerHex && atEnd rest then some [a, b, c, d] else none
      | _ => none
  | _ => none

def parseMatchSpec (spec : String) : Except Err MatchSpec :=
  if isVendorDevice spec.toList then
    .ok (.vendorDevice (ofList (spec.toList.take 4)) (ofList (spec.toList.drop 5)))
  else
    match classGroup spec.toList with
    | some group => .ok (.deviceClass (ofList group))
    | none =>
      .error (.configuration
        [.text "malformed PCIe match spec ", .quoted spec, .text ": expected '<4hex>:<4hex>' or 'class=<2|4 hex>'"]
        [("spec", .text spec)])

/-! ## The matcher -/

def descriptorMatches (spec : MatchSpec) (d : PCIeDescriptor) : Bool :=
  match spec with
  | .vendorDevice vendorId deviceId => d.vendorId = vendorId && d.deviceId = deviceId
  | .deviceClass code => code.toList.isPrefixOf d.classCode.toList

/-- Which spec, by index, may have which device. -/
def mayHave (specs : List MatchSpec) (available : List PCIeDescriptor) (s d : Nat) : Bool :=
  match specs[s]?, available[d]? with
  | some spec, some descriptor => descriptorMatches spec descriptor
  | _, _ => false

def maxBipartiteMatch (specs : List MatchSpec) (available : List PCIeDescriptor) : Option (List Nat) :=
  (Lib.Matching.matchAll (mayHave specs available) available.length (range specs.length) {}).map
    fun st => (range specs.length).filterMap st.mate

def unclaimed (descriptors : List PCIeDescriptor) (claims : List PCIeClaim) : List PCIeDescriptor :=
  descriptors.filter fun d => d.bdf ∉ claims.map (·.bdf)

def resolveSpec (spec : String) (descriptors : List PCIeDescriptor) (claims : List PCIeClaim) :
    Except Err SpecResolution := do
  let parsed ← parseMatchSpec spec
  let matching := descriptors.filter (descriptorMatches parsed)
  if matching.isEmpty then
    return ⟨.config, []⟩
  let free := unclaimed matching claims
  if free.isEmpty then
    return ⟨.capacity, []⟩
  return ⟨.matched, free⟩

def resolveMultiset (specs : List String) (descriptors : List PCIeDescriptor)
    (claims : List PCIeClaim) : Except Err MultisetResolution := do
  let parsed ← specs.mapM parseMatchSpec
  if parsed.any fun p => !descriptors.any (descriptorMatches p) then
    return ⟨.config, []⟩
  match maxBipartiteMatch parsed (unclaimed descriptors claims) with
  | none => return ⟨.capacity, []⟩
  | some assignment =>
    return ⟨.matched, assignment.filterMap ((unclaimed descriptors claims)[·]?)⟩

def resolveUnion (specs : List String) (descriptors : List PCIeDescriptor)
    (claims : List PCIeClaim) : Except Err MultisetResolution :=
  resolveMultiset specs descriptors claims

/-! ## What a host advertises -/

def pcieDevicesKey : String := "pcie_devices"

def stringField (fields : List (String × Json)) (key : String) : Option String :=
  match Json.get? fields key with
  | some (.str s) => some s
  | _ => none

/-- One entry of the advertised list; an ill-formed one is dropped. -/
def descriptorOf : Json → Option PCIeDescriptor
  | .obj fields => do
    let bdf ← stringField fields "bdf"
    let vendorId ← stringField fields "vendor_id"
    let deviceId ← stringField fields "device_id"
    let classCode ← stringField fields "class_code"
    let label ← stringField fields "label"
    return ⟨bdf, vendorId, deviceId, classCode, label⟩
  | _ => none

def descriptorsFor (r : Resource) : List PCIeDescriptor :=
  match Json.get? r.capabilities pcieDevicesKey with
  | some (.arr entries) => entries.filterMap descriptorOf
  | _ => []

/-! ## The devices chosen -/

/-- `f` gives each spec, by index, a device that it may have, and no two specs one device. -/
abbrev Shares (specs : List MatchSpec) (available : List PCIeDescriptor) (f : Nat → Nat) : Prop :=
  Lib.Matching.Perfect (mayHave specs available) available.length (range specs.length).toFinset f

theorem shares_of_maxBipartiteMatch {specs : List MatchSpec} {available : List PCIeDescriptor} {picks : List Nat}
    (h : maxBipartiteMatch specs available = some picks) :
    ∃ f, Shares specs available f ∧ picks = (range specs.length).map f := by
  obtain ⟨st, hst, rfl⟩ := Option.map_eq_some_iff.mp h
  obtain ⟨hc, hall⟩ := Lib.Matching.matchAll_spec nodup_range hst
  have hmate : ∀ s ∈ range specs.length, st.mate s = some ((st.mate s).getD 0) := by
    intro s hs
    obtain ⟨d, hd⟩ := hall s hs
    simp [hd]
  refine ⟨fun s => (st.mate s).getD 0, ⟨fun s hs s' hs' heq => ?_, fun s hs => ?_⟩, ?_⟩
  · exact hc.injective (hmate s (mem_toFinset.mp hs)) (heq ▸ hmate s' (mem_toFinset.mp hs'))
  · exact hc.edge s _ (hmate s (mem_toFinset.mp hs))
  · rw [filterMap_congr hmate, filterMap_eq_map']

theorem maxBipartiteMatch_nodup {specs : List MatchSpec} {available : List PCIeDescriptor}
    {assignment : List Nat} (h : maxBipartiteMatch specs available = some assignment) : assignment.Nodup := by
  obtain ⟨f, hf, rfl⟩ := shares_of_maxBipartiteMatch h
  exact nodup_range.map_on fun s hs s' hs' => hf.injOn (by simpa using hs) (by simpa using hs')

theorem filterMap_getElem?_nodup {l : List PCIeDescriptor} {assignment : List Nat}
    (hl : (l.map (·.bdf)).Nodup) (ha : assignment.Nodup) : ((assignment.filterMap (l[·]?)).map (·.bdf)).Nodup := by
  rw [map_filterMap]
  refine ha.filterMap ?_
  intro i j b hi hj
  have hi' : (l.map (·.bdf))[i]? = some b := by simpa using hi
  have hj' : (l.map (·.bdf))[j]? = some b := by simpa using hj
  have hlt : i < (l.map (·.bdf)).length := (List.getElem?_eq_some_iff.mp hi').1
  exact (getElem?_inj hlt hl).mp (hi'.trans hj'.symm)

/-- **A resolution books free and distinct devices**: none is held by a claim and, on a host whose
    descriptors have distinct addresses, no two are one device. -/
theorem resolveMultiset_devices {specs : List String} {descriptors : List PCIeDescriptor}
    {claims : List PCIeClaim} {res : MultisetResolution} (h : resolveMultiset specs descriptors claims = .ok res) :
    (∀ d ∈ res.devices, d.bdf ∉ claims.map (·.bdf)) ∧
      ((descriptors.map (·.bdf)).Nodup → (res.devices.map (·.bdf)).Nodup) := by
  unfold resolveMultiset at h
  cases hp : specs.mapM parseMatchSpec with
  | error =>
    rw [hp] at h
    cases h
  | ok parsed =>
    rw [hp] at h
    simp only [bind, Except.bind, pure, Except.pure] at h
    split at h
    · cases h
      exact ⟨by simp, fun _ => nodup_nil⟩
    · split at h
      · cases h
        exact ⟨by simp, fun _ => nodup_nil⟩
      · rename_i assignment hm
        cases h
        constructor
        · intro d hd
          obtain ⟨i, -, hi⟩ := mem_filterMap.mp hd
          have hmem := mem_of_getElem? hi
          simpa [unclaimed] using (mem_filter.mp hmem).2
        · intro hnd
          refine filterMap_getElem?_nodup ?_ (maxBipartiteMatch_nodup hm)
          exact hnd.sublist (filter_sublist.map _)

/-! ## Which requests are met -/

theorem shares_of_resolveMultiset {specs : List String} {descriptors : List PCIeDescriptor} {claims : List PCIeClaim}
    {devices : List PCIeDescriptor} (h : resolveMultiset specs descriptors claims = .ok ⟨.matched, devices⟩) :
    ∃ parsed f, specs.mapM parseMatchSpec = .ok parsed ∧ Shares parsed (unclaimed descriptors claims) f ∧
      devices = ((range parsed.length).map f).filterMap ((unclaimed descriptors claims)[·]?) := by
  unfold resolveMultiset at h
  cases hparsed : specs.mapM parseMatchSpec with
  | error => simp [hparsed, bind, Except.bind] at h
  | ok parsed =>
    simp only [hparsed, bind, Except.bind, pure, Except.pure] at h
    split at h
    · cases h
    · split at h
      · cases h
      · rename_i picks hm
        cases h
        obtain ⟨f, hf, rfl⟩ := shares_of_maxBipartiteMatch hm
        exact ⟨parsed, f, rfl, hf, rfl⟩

theorem resolveMultiset_of_shares {specs : List String} {descriptors : List PCIeDescriptor} {claims : List PCIeClaim}
    {parsed : List MatchSpec} {f : Nat → Nat} (hparsed : specs.mapM parseMatchSpec = .ok parsed)
    (hf : Shares parsed (unclaimed descriptors claims) f) :
    ∃ devices, resolveMultiset specs descriptors claims = .ok ⟨.matched, devices⟩ := by
  -- a spec with a share is matched by a descriptor of the host
  have hsome : ∀ p ∈ parsed, ∃ d ∈ descriptors, descriptorMatches p d = true := by
    intro p hp
    obtain ⟨s, hs, rfl⟩ := getElem_of_mem hp
    have hmay := (hf.edge s (by simpa using hs)).1
    rw [mayHave, getElem?_eq_getElem hs] at hmay
    split at hmay
    · rename_i d hspec hd
      cases hspec
      exact ⟨d, (mem_filter.mp (mem_of_getElem? hd)).1, hmay⟩
    · cases hmay
  obtain ⟨st, hst⟩ := Lib.Matching.exists_matchAll nodup_range hf
  simp only [resolveMultiset, hparsed, bind, Except.bind, pure, Except.pure]
  rw [if_neg (by simpa using hsome), maxBipartiteMatch, hst]
  exact ⟨_, rfl⟩

/-- **A request is met exactly where the free devices can be shared out**, and with such a share. -/
theorem resolveMultiset_exact (specs : List String) (descriptors : List PCIeDescriptor) (claims : List PCIeClaim) :
    (∀ devices, resolveMultiset specs descriptors claims = .ok ⟨.matched, devices⟩ →
      ∃ parsed f, specs.mapM parseMatchSpec = .ok parsed ∧ Shares parsed (unclaimed descriptors claims) f ∧
        devices = ((range parsed.length).map f).filterMap ((unclaimed descriptors claims)[·]?)) ∧
    ∀ parsed f, specs.mapM parseMatchSpec = .ok parsed → Shares parsed (unclaimed descriptors claims) f →
      ∃ devices, resolveMultiset specs descriptors claims = .ok ⟨.matched, devices⟩ :=
  ⟨fun _ => shares_of_resolveMultiset, fun _ _ => resolveMultiset_of_shares⟩

theorem maxBipartiteMatch_singleton {spec : MatchSpec} {available : List PCIeDescriptor} :
    (maxBipartiteMatch [spec] available).isSome = true ↔ ∃ d ∈ available, descriptorMatches spec d = true := by
  constructor
  · intro h
    obtain ⟨picks, hm⟩ := Option.isSome_iff_exists.mp h
    obtain ⟨f, hf, -⟩ := shares_of_maxBipartiteMatch hm
    obtain ⟨hmay, hlt⟩ := hf.edge 0 (by simp)
    exact ⟨_, getElem_mem hlt, by simpa [mayHave, hlt] using hmay⟩
  · rintro ⟨d, hd, hmatch⟩
    obtain ⟨i, hi, rfl⟩ := getElem_of_mem hd
    have hf : Shares [spec] available fun _ => i := ⟨by simp [Set.InjOn], by simp [mayHave, hi, hmatch]⟩
    obtain ⟨st, hst⟩ := Lib.Matching.exists_matchAll nodup_range hf
    rw [maxBipartiteMatch, hst]
    rfl

/-- Of one spec the filter and the matching find the same. -/
theorem resolveSpec_unclaimed (spec : String) (descriptors : List PCIeDescriptor) (claims : List PCIeClaim) :
    (resolveSpec spec (unclaimed descriptors claims) []).map (·.outcome == .matched) =
      (resolveUnion [spec] descriptors claims).map (·.outcome == .matched) := by
  simp only [resolveUnion, resolveSpec, resolveMultiset, mapM_cons, mapM_nil]
  cases parseMatchSpec spec with
  | error => rfl
  | ok p =>
    simp only [bind, Except.bind, pure, Except.pure]
    by_cases hany : ∃ d ∈ unclaimed descriptors claims, descriptorMatches p d = true
    · obtain ⟨picks, hm⟩ := Option.isSome_iff_exists.mp (maxBipartiteMatch_singleton.mpr hany)
      obtain ⟨d, hd, hmatch⟩ := hany
      have hfree : (unclaimed descriptors claims).filter (descriptorMatches p) ≠ [] :=
        ne_nil_of_mem (mem_filter.mpr ⟨hd, hmatch⟩)
      rw [if_neg (by simpa using hfree), if_neg, if_neg, hm]
      · rfl
      · simpa using ⟨d, (mem_filter.mp hd).1, hmatch⟩
      · simpa [unclaimed] using hfree
    · have hm := mt maxBipartiteMatch_singleton.mp hany
      rw [if_pos (by simpa using hany), Option.not_isSome_iff_eq_none.mp hm]
      split <;> rfl

/-! ## What the grammar accepts -/

def Digits (n : Nat) (l : List Char) : Prop := l.length = n ∧ l.all isLowerHex = true

theorem Digits.getLast?_ne {n : Nat} {l : List Char} (h : Digits (n + 1) l) (front : List Char) :
    (front ++ l).getLast? ≠ some '\n' := by
  intro hlast
  have hne : l ≠ [] := ne_nil_of_length_eq_add_one h.1
  rw [getLast?_append_of_ne_nil _ hne] at hlast
  exact absurd (all_eq_true.mp h.2 _ (mem_of_getLast? hlast)) (by decide)

theorem atEnd_iff {l : List Char} : atEnd l = true ↔ l = [] ∨ l = ['\n'] := by
  fun_cases atEnd l <;> simp_all

theorem isVendorDevice_iff {l : List Char} : isVendorDevice l = true ↔
    ∃ v w rest, Digits 4 v ∧ Digits 4 w ∧ atEnd rest = true ∧ l = v ++ ':' :: (w ++ rest) := by
  constructor
  · intro h
    unfold isVendorDevice at h
    split at h
    next a b c d e f g k rest =>
      simp only [all_cons, all_nil, Bool.and_eq_true, Bool.and_true] at h
      refine ⟨[a, b, c, d], [e, f, g, k], rest, ?_, ?_, h.2, rfl⟩ <;> simp [Digits, h]
    next => cases h
  · rintro ⟨v, w, rest, ⟨hv, hv'⟩, ⟨hw, hw'⟩, hrest, rfl⟩
    obtain ⟨a, b, c, d, rfl⟩ := length_eq_four.mp hv
    obtain ⟨e, f, g, k, rfl⟩ := length_eq_four.mp hw
    simp_all [isVendorDevice]

theorem classGroup_iff {l c : List Char} : classGroup l = some c ↔
    (Digits 2 c ∨ Digits 4 c) ∧ ∃ rest, atEnd rest = true ∧ l = "class=".toList ++ (c ++ rest) := by
  constructor
  · intro h
    unfold classGroup at h
    split at h
    next a b rest =>
      split at h
      next htwo =>
        obtain ⟨hab, hrest⟩ := Bool.and_eq_true _ _ ▸ htwo
        cases h
        exact ⟨.inl ⟨rfl, hab⟩, rest, hrest, rfl⟩
      next =>
        split at h
        next c d rest _ =>
          split at h
          next hfour =>
            obtain ⟨habcd, hrest⟩ := Bool.and_eq_true _ _ ▸ hfour
            cases h
            exact ⟨.inr ⟨rfl, habcd⟩, rest, hrest, rfl⟩
          next => cases h
        next => cases h
    next => cases h
  · rintro ⟨⟨hlen, hhex⟩ | ⟨hlen, hhex⟩, rest, hrest, rfl⟩
    · obtain ⟨a, b, rfl⟩ := length_eq_two.mp hlen
      exact if_pos (Bool.and_eq_true_iff.mpr ⟨hhex, hrest⟩)
    · obtain ⟨a, b, c, d, rfl⟩ := length_eq_four.mp hlen
      have hmore : ¬ (([a, b].all isLowerHex && atEnd (c :: d :: rest)) = true) := by simp [atEnd]
      refine (if_neg hmore).trans (if_pos ?_)
      exact Bool.and_eq_true_iff.mpr ⟨hhex, hrest⟩

theorem parse_vendorDevice {v w : List Char} (hv : Digits 4 v) (hw : Digits 4 w) :
    parseMatchSpec (ofList (v ++ ':' :: w)) = .ok (.vendorDevice (ofList v) (ofList w)) := by
  have hpattern : isVendorDevice (v ++ ':' :: w) = true :=
    isVendorDevice_iff.mpr ⟨v, w, [], hv, hw, rfl, by rw [append_nil]⟩
  obtain ⟨a, b, c, d, rfl⟩ := length_eq_four.mp hv.1
  unfold parseMatchSpec
  rw [toList_ofList, if_pos hpattern]
  rfl

theorem parse_deviceClass {c : List Char} (hc : Digits 2 c ∨ Digits 4 c) :
    parseMatchSpec (ofList ("class=".toList ++ c)) = .ok (.deviceClass (ofList c)) := by
  have hgroup : classGroup ("class=".toList ++ c) = some c :=
    classGroup_iff.mpr ⟨hc, [], rfl, by rw [append_nil]⟩
  have hpattern : isVendorDevice ("class=".toList ++ c) = false := by simp [isVendorDevice]
  unfold parseMatchSpec
  simp only [toList_ofList, hpattern, hgroup, Bool.false_eq_true, if_false]

/-- A spec of exactly the documented grammar, and what it is parsed to: its digits, which also say what it matches. -/
def Spells (spec : String) (m : MatchSpec) : Prop :=
  (∃ v w, Digits 4 v ∧ Digits 4 w ∧ spec = ofList (v ++ ':' :: w) ∧
    m = .vendorDevice (ofList v) (ofList w) ∧
    ∀ d, descriptorMatches m d = true ↔ d.vendorId.toList = v ∧ d.deviceId.toList = w) ∨
  ∃ c, (Digits 2 c ∨ Digits 4 c) ∧ spec = ofList ("class=".toList ++ c) ∧
    m = .deviceClass (ofList c) ∧ ∀ d, descriptorMatches m d = true ↔ c <+: d.classCode.toList

theorem Spells.getLast?_ne {spec : String} {m : MatchSpec} (h : Spells spec m) :
    spec.toList.getLast? ≠ some '\n' := by
  rcases h with ⟨v, w, hv, hw, rfl, -⟩ | ⟨c, hc, rfl, -⟩
  · rw [toList_ofList, append_cons]
    exact hw.getLast?_ne _
  · rw [toList_ofList]
    exact hc.elim (·.getLast?_ne _) (·.getLast?_ne _)

/-- A spec of the grammar is accepted with a newline after it as well. -/
theorem Spells.parse_newline {text : String} {m : MatchSpec} (h : Spells text m) :
    ∃ m', parseMatchSpec (text ++ "\n") = .ok m' := by
  rcases h with ⟨v, w, hv, hw, rfl, -⟩ | ⟨c, hc, rfl, -⟩
  · have hpattern : isVendorDevice (ofList (v ++ ':' :: w) ++ "\n").toList = true :=
      isVendorDevice_iff.mpr ⟨v, w, ['\n'], hv, hw, rfl, by simp⟩
    exact ⟨_, by rw [parseMatchSpec, if_pos hpattern]⟩
  · have hgroup : classGroup (ofList ("class=".toList ++ c) ++ "\n").toList = some c :=
      classGroup_iff.mpr ⟨hc, ['\n'], rfl, by simp⟩
    unfold parseMatchSpec
    rw [hgroup]
    split <;> exact ⟨_, rfl⟩

/-- **`parse_match_spec` accepts exactly the grammar it documents**, with the digits as they are written, of every
    text but one: a spec of that grammar with one newline after it. -/
theorem parseMatchSpec_exact (spec : String) :
    (∀ m, parseMatchSpec spec = .ok m ↔ Spells spec m) ↔ ¬ ∃ text m, Spells text m ∧ spec = text ++ "\n" := by
  constructor
  · rintro hexact ⟨text, m, htext, rfl⟩
    obtain ⟨m', hm'⟩ := htext.parse_newline
    exact ((hexact m').mp hm').getLast?_ne (by simp)
  intro hplain m
  -- what `$` leaves over is nothing, or the newline that is excluded
  have hrest {l rest : List Char} {m : MatchSpec} (hl : spec.toList = l ++ rest) (h : atEnd rest = true)
      (hspells : Spells (ofList l) m) : spec = ofList l := by
    rcases atEnd_iff.mp h with rfl | rfl
    · rw [← append_nil l, ← hl, ofList_toList]
    · exact absurd ⟨_, m, hspells, toList_inj.mp (by simpa using hl)⟩ hplain
  constructor
  · intro h
    cases hpattern : isVendorDevice spec.toList with
    | true =>
      obtain ⟨v, w, rest, hv, hw, hatEnd, hl⟩ := isVendorDevice_iff.mp hpattern
      have hspells : Spells (ofList (v ++ ':' :: w)) (.vendorDevice (ofList v) (ofList w)) :=
        .inl ⟨v, w, hv, hw, rfl, rfl, by simp [descriptorMatches, ← toList_inj]⟩
      obtain rfl := hrest (by simpa using hl) hatEnd hspells
      cases (parse_vendorDevice hv hw).symm.trans h
      exact hspells
    | false =>
      unfold parseMatchSpec at h
      rw [hpattern] at h
      cases hc : classGroup spec.toList with
      | some c =>
        rw [hc] at h
        cases h
        obtain ⟨hdigits, rest, hatEnd, hl⟩ := classGroup_iff.mp hc
        have hspells : Spells (ofList ("class=".toList ++ c)) (.deviceClass (ofList c)) :=
          .inr ⟨c, hdigits, rfl, rfl, by simp [descriptorMatches]⟩
        rwa [hrest (hl.trans (List.append_assoc ..).symm) hatEnd hspells]
      | none =>
        rw [hc] at h
        cases h
  · rintro (⟨v, w, hv, hw, rfl, rfl, -⟩ | ⟨c, hc, rfl, rfl, -⟩)
    · exact parse_vendorDevice hv hw
    · exact parse_deviceClass hc

/-- A newline after a spec is accepted, and may be part of it. -/
theorem parseMatchSpec_newline :
    parseMatchSpec "8086:1572\n" = .ok (.vendorDevice "8086" "1572\n") ∧
      parseMatchSpec "class=02\n" = .ok (.deviceClass "02") ∧
      ¬ Spells "8086:1572\n" (.vendorDevice "8086" "1572\n") ∧ ¬ Spells "class=02\n" (.deviceClass "02") :=
  ⟨by decide +kernel, by decide +kernel, fun h => h.getLast?_ne (by decide), fun h => h.getLast?_ne (by decide)⟩
end Kdive
