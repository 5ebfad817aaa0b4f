import Mathlib.Algebra.GroupWithZero.Nat
import Mathlib.Data.List.Basic

/-! # The introspection report

`assemble_report` redacts what the three helpers found and halves the list of task rows until the serialized report fits
the cap. Modules and sysinfo are never cut, so the report fits exactly if it does with no task row at all; the rows
are the first of the blocked tasks, and the report says so if some are missing.
-/

namespace Kdive.Introspect
open List

/-- All but printable ASCII is escaped, beyond the basic plane as two surrogates. -/
def charSize (c : Char) : Nat :=
  if c ∈ ['"', '\\', '\n', '\r', '\t', '\x0c', '\x08'] then 2
  else if ' ' ≤ c ∧ c ≤ '~' then 1
  else if c.toNat < 0x10000 then 6 else 12

def stringSize (s : String) : Nat := 2 + (s.toList.map charSize).sum

def intSize (n : Int) : Nat := (toString n).length

def listSize (sizes : List Nat) : Nat := 2 + sizes.sum + 2 * (sizes.length - 1)

def objectSize (fields : List (String × Nat)) : Nat := listSize (fields.map fun f => stringSize f.1 + 2 + f.2)

inductive Value where
  | str (s : String)
  | int (n : Int)
  | strs (items : List String)

abbrev Dict := List (String × Value)

def Value.size : Value → Nat
  | .str s => stringSize s
  | .int n => intSize n
  | .strs items => listSize (items.map stringSize)

def dictSize (d : Dict) : Nat := objectSize (d.map fun f => (f.1, f.2.size))

/-! ## The helpers -/

structure Task where
  (pid tgid : Int)
  (comm state : String)
  /-- The frames, or the type of the exception that unwinding raises. -/
  kernelStack : Except String (List String)

structure Module where
  (name state : String)
  (size refcount : Int)
  usedBy : List String

/-- `_Program`; a module that cannot be decoded is `none`. -/
structure Program where
  tasks : List Task := []
  modules : List (Option Module) := []
  uts : String → Option String := fun _ => none
  bootCmdline : String := ""
  cpusOnline : Int := 0
  memTotalPages : Int := 0

def safeStack (task : Task) : List String :=
  match task.kernelStack with
  | .ok frames => frames
  | .error exc => ["<stack unavailable: " ++ exc ++ ">"]

def Task.row (task : Task) : Dict :=
  [("pid", .int task.pid), ("tgid", .int task.tgid), ("comm", .str task.comm), ("state", .str task.state),
    ("kernel_stack", .strs (safeStack task))]

def Task.blocked (task : Task) : Bool := task.state == "D"

def taskLimit : Nat := 200

def helperTasks (rows : List Dict) : List Task → List Dict × Bool
  | [] => (rows, false)
  | task :: rest =>
    if !task.blocked then helperTasks rows rest
    else if taskLimit ≤ rows.length then (rows, true)
    else helperTasks (rows ++ [task.row]) rest

def Module.row (m : Module) : Dict :=
  [("name", .str m.name), ("size", .int m.size), ("refcount", .int m.refcount), ("used_by", .strs m.usedBy),
    ("state", .str m.state)]

structure Modules where
  modules : List Dict := []
  decodeErrors : Nat := 0

def Modules.allFailed (m : Modules) : Bool := m.modules.isEmpty && decide (0 < m.decodeErrors)

def helperModules (found : Modules) : List (Option Module) → Modules
  | [] => found
  | some m :: rest => helperModules { found with modules := found.modules ++ [m.row] } rest
  | none :: rest => helperModules { found with decodeErrors := found.decodeErrors + 1 } rest

def helperSysinfo (prog : Program) : Dict :=
  ["release", "version", "machine", "nodename"].map (fun key => (key, .str ((prog.uts key).getD ""))) ++
  [("boot_cmdline", .str prog.bootCmdline), ("cpus_online", .int prog.cpusOnline),
    ("mem_total_pages", .int prog.memTotalPages)]

/-! ## The report -/

section
variable (redact : String → String)

/-- `redact_value`: no key of the report is one that masks its value. -/
def redactDict (d : Dict) : Dict :=
  d.map fun f => (f.1, match f.2 with
    | .str s => .str (redact s)
    | .strs items => .strs (items.map redact)
    | .int n => .int n)

def reportSize (rows : List Dict) (modules : Modules) (sysinfo : Dict) : Nat :=
  objectSize [("tasks", listSize (rows.map dictSize)),
    ("modules", objectSize [("modules", listSize (modules.modules.map dictSize)),
      ("decode_errors", intSize modules.decodeErrors), ("all_failed", if modules.allFailed then 4 else 5)]),
    ("sysinfo", dictSize sysinfo)]

/-- `_byte_cap`: the rows left, and whether some were cut. -/
def byteCap (modules : Modules) (sysinfo : Dict) (cap : Int) (rows : List Dict) : List Dict × Bool :=
  if rows ≠ [] ∧ cap < reportSize rows modules sysinfo then
    ((byteCap modules sysinfo cap (rows.take (rows.length / 2))).1, true)
  else (rows, false)
termination_by rows.length
decreasing_by
  rename_i h
  have := length_pos_of_ne_nil h.1
  simp only [length_take]
  omega

structure IntrospectOutput where
  tasks : List Dict
  modules : Modules
  sysinfo : Dict
  truncated : Bool

def assembleReport (tasks : List Dict × Bool) (modules : Modules) (sysinfo : Dict) (cap : Int) : IntrospectOutput :=
  let modules := { modules with modules := modules.modules.map (redactDict redact) }
  let sysinfo := redactDict redact sysinfo
  let (rows, trimmed) := byteCap modules sysinfo cap (tasks.1.map (redactDict redact))
  { tasks := rows, modules, sysinfo, truncated := tasks.2 || trimmed }

def introspect (prog : Program) (cap : Int) : IntrospectOutput :=
  assembleReport redact (helperTasks [] prog.tasks) (helperModules {} prog.modules) (helperSysinfo prog) cap
end

/-! ## What is cut -/

theorem helperTasks_eq (tasks : List Task) (rows : List Dict) (h : rows.length ≤ taskLimit) :
    helperTasks rows tasks = ((rows ++ (tasks.filter Task.blocked).map Task.row).take taskLimit,
      decide (taskLimit < rows.length + (tasks.filter Task.blocked).length)) := by
  induction tasks generalizing rows with
  | nil => simp [helperTasks, take_of_length_le h, Nat.not_lt.mpr h]
  | cons task rest ih =>
    rw [helperTasks]
    cases hblocked : task.blocked with
    | false => simp [hblocked, ih rows h]
    | true =>
      simp only [Bool.not_true, Bool.false_eq_true, if_false, filter_cons, hblocked, if_true, map_cons, length_cons]
      split
      case isTrue hfull =>
        rw [take_append_of_le_length hfull, take_of_length_le h, decide_eq_true (by omega)]
      case isFalse hroom =>
        rw [ih _ (by rw [length_append, length_singleton]; omega)]
        simp [Nat.add_right_comm, Nat.add_assoc]

/-- The halving ends with a prefix, cut or not, that fits or is empty. -/
theorem byteCap_spec (modules : Modules) (sysinfo : Dict) (cap : Int) (rows : List Dict) :
    let kept := byteCap modules sysinfo cap rows
    kept.1 <+: rows ∧ (kept.2 = true ↔ kept.1.length < rows.length) ∧
      (kept.1 = [] ∨ reportSize kept.1 modules sysinfo ≤ cap) := by
  simp only
  fun_induction byteCap modules sysinfo cap rows with
  | case1 rows h ih =>
    obtain ⟨hpre, -, hfits⟩ := ih
    refine ⟨hpre.trans ⟨_, take_append_drop _ _⟩, ?_, hfits⟩
    have hlen := hpre.length_le
    have hpos := length_pos_of_ne_nil h.1
    rw [length_take] at hlen
    simp only [true_iff]
    omega
  | case2 rows h =>
    refine ⟨prefix_rfl, by simp, ?_⟩
    by_cases hnil : rows = []
    · exact .inl hnil
    · exact .inr (Int.not_lt.mp fun hlt => h ⟨hnil, hlt⟩)

theorem reportSize_nil_le (rows : List Dict) (modules : Modules) (sysinfo : Dict) :
    reportSize [] modules sysinfo ≤ reportSize rows modules sysinfo := by
  simp only [reportSize, objectSize, listSize, map_cons, map_nil, sum_cons, sum_nil, length_cons, length_nil]
  omega

theorem helperModules_eq (ms : List (Option Module)) (found : Modules) : helperModules found ms =
    ⟨found.modules ++ (ms.filterMap id).map Module.row, found.decodeErrors + ms.countP Option.isNone⟩ := by
  induction ms generalizing found with
  | nil => simp [helperModules]
  | cons m ms ih =>
    cases m with
    | none => simp [helperModules, ih, Nat.add_assoc, Nat.add_comm 1]
    | some m => simp [helperModules, ih]

/-- What no trimming takes from the report of a program: a row for every module that can be decoded, the number of
    those that cannot, and the sysinfo, all redacted. -/
def Program.uncut (redact : String → String) (prog : Program) : Nat :=
  reportSize [] ⟨(prog.modules.filterMap id).map fun m => redactDict redact m.row, prog.modules.countP Option.isNone⟩
    (redactDict redact (helperSysinfo prog))

/-- **The report fits the cap exactly if the program's modules and sysinfo do**; its rows are the first of the blocked
    tasks, and it is marked as truncated exactly if one is missing. -/
theorem report_fits_iff (redact : String → String) (prog : Program) (cap : Int) :
    let out := introspect redact prog cap
    let blocked := (prog.tasks.filter Task.blocked).map fun task => redactDict redact task.row
    ((reportSize out.tasks out.modules out.sysinfo : Int) ≤ cap ↔ (prog.uncut redact : Int) ≤ cap) ∧
    out.tasks <+: blocked ∧ (out.truncated = true ↔ out.tasks.length < blocked.length) := by
  intro out blocked
  have hfound := helperTasks_eq prog.tasks [] (Nat.zero_le _)
  have hrows : (helperTasks [] prog.tasks).1.map (redactDict redact) = blocked.take taskLimit := by
    simp [hfound, blocked, Function.comp_def]
  have htasks : out.tasks = (byteCap out.modules out.sysinfo cap (blocked.take taskLimit)).1 := by
    rw [← hrows]
    rfl
  have htruncated : out.truncated = (decide (taskLimit < blocked.length) ||
      (byteCap out.modules out.sysinfo cap (blocked.take taskLimit)).2) := by
    rw [← hrows, show blocked.length = _ from length_map _]
    show ((helperTasks [] prog.tasks).2 || _) = _
    rw [hfound, length_nil, Nat.zero_add]
    rfl
  have huncut : prog.uncut redact = reportSize [] out.modules out.sysinfo := by
    simp [out, introspect, assembleReport, helperModules_eq, Program.uncut, Function.comp_def]
  rw [huncut]
  obtain ⟨hpre, hcut, hfits⟩ := byteCap_spec out.modules out.sysinfo cap (blocked.take taskLimit)
  rw [← htasks] at hpre hcut hfits
  refine ⟨⟨fun h => ?_, fun h => ?_⟩, hpre.trans ⟨_, take_append_drop _ _⟩, ?_⟩
  · have := reportSize_nil_le out.tasks out.modules out.sysinfo
    omega
  · rcases hfits with hnil | hfits
    · rwa [hnil]
    · exact hfits
  · have hlen := hpre.length_le
    rw [htruncated, Bool.or_eq_true, hcut, decide_eq_true_eq]
    rw [length_take] at hlen ⊢
    omega

/-- A kernel with no task and no module, and a cap of 100 bytes. -/
theorem report_exceeds_cap :
    let out := introspect id {} 100
    out.tasks = [] ∧ ¬ (reportSize out.tasks out.modules out.sysinfo : Int) ≤ 100 := by
  decide +kernel
end Kdive.Introspect
