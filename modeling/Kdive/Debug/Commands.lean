import Kdive.Debug.Memory
import Kdive.Domain.Pcie

/-! # The commands of the engine

What the caller of a breakpoint, register or memory operation gives is checked, and then written into the text of a
gdb/MI command. A newline at the end of a location or of an id passes the check, whose pattern ends in `$`, and goes into
the command (`newline_passed`). Every other value accepted is a word of a single line (`commands_single_line`).
-/

namespace Kdive.Debug
open List

/-- A call of the engine: the commands it passes to the controller, and what it comes to. -/
structure Call (α : Type) where
  sent : List String
  outcome : Except Err α

section
variable {α : Type} (write : String → Except Err (List MiRecord))

def execute (command : String) (result : List MiRecord → Except Err α) : Call α :=
  ⟨[command], (executeMiCommand write command).bind result⟩

def configError (message : List Part) (code : String) (details : List (String × Part)) : Call α :=
  ⟨[], .error (.configuration message (("code", .text code) :: details))⟩

/-- `^[first][rest]*$`. -/
def matchesRun (first rest : Char → Bool) : List Char → Bool
  | [] => false
  | c :: cs => first c && atEnd (cs.dropWhile rest)

def isLetter (c : Char) : Bool := ('A' ≤ c && c ≤ 'Z') || ('a' ≤ c && c ≤ 'z')

def isDecimal (c : Char) : Bool := '0' ≤ c && c ≤ '9'

def isNameChar (c : Char) : Bool := isLetter c || isDecimal c || c = '_'

/-- `set_breakpoint`, by what it makes of the reply. -/
def setBreakpoint (breakpointRef : List MiRecord → Except Err α) (location : String) : Call α :=
  if matchesRun (fun c => isLetter c || c = '_') isNameChar location.toList then
    execute write ("-break-insert -h " ++ location) breakpointRef
  else configError [.text "breakpoint location must be a bare C identifier, got ", .quoted location] "bad_location"
    [("location", .text location)]

def clearBreakpoint (number : String) : Call Unit :=
  if matchesRun isDecimal isDecimal number.toList then
    execute write ("-break-delete " ++ number) fun _ => .ok ()
  else configError [.text "breakpoint id must be numeric, got ", .quoted number] "bad_breakpoint_id"
    [("number", .text number)]

/-- `read_registers`, by what it makes of the two replies. -/
def readRegisters (registers : List MiRecord → List MiRecord → Except Err α) (names : List String) : Call α :=
  if names = [] then configError [.text "registers must be a non-empty list"] "bad_register" []
  else match names.find? (!matchesRun isLetter isNameChar ·.toList) with
    | some name => configError [.text "invalid register name ", .quoted name] "bad_register" []
    | none =>
      match executeMiCommand write "-data-list-register-names" with
      | .error e => ⟨["-data-list-register-names"], .error e⟩
      | .ok ordered =>
        let values := execute write "-data-list-register-values x" (registers ordered)
        ⟨"-data-list-register-names" :: values.sent, values.outcome⟩

/-- `read_memory`, with what it passes to the controller. -/
def readMemoryCall (address byteCount : Int) : Call (List UInt8) :=
  if address < 0 ∨ address > 0xFFFFFFFFFFFFFFFF ∨ byteCount < 1 ∨ byteCount > maxMemoryReadBytes then
    ⟨[], readMemory write address byteCount⟩
  else execute write (readCommand address byteCount) fun records =>
    joinSegments address byteCount (memorySegments records)

theorem outcome_readMemoryCall (address byteCount : Int) :
    (readMemoryCall write address byteCount).outcome = readMemory write address byteCount := by
  unfold readMemoryCall
  split
  · rfl
  · rw [readMemory, if_neg (by omega), if_neg (by omega), execute]
end

/-! ## What is sent -/

/-- Printable ASCII without the space. -/
def isGraphic (c : Char) : Bool := '!' ≤ c && c ≤ '~'

def IsWord (s : String) : Prop := s ≠ "" ∧ s.toList.all isGraphic = true

/-- One line of printable ASCII: the verb, and then each of the values as a word of its own. -/
structure CommandLine (verb : String) (values : List String) (command : String) : Prop where
  spelled : command.toList = verb.toList ++ values.flatMap (' ' :: ·.toList)
  words : ∀ value ∈ values, IsWord value
  printable : command.toList.all (fun c => c = ' ' || isGraphic c) = true

theorem CommandLine.of_words {verb command : String} {values : List String}
    (hverb : verb.toList.all (fun c => c = ' ' || isGraphic c) = true) (hwords : ∀ value ∈ values, IsWord value)
    (h : command.toList = verb.toList ++ values.flatMap (' ' :: ·.toList)) : CommandLine verb values command := by
  refine ⟨h, hwords, ?_⟩
  rw [h, all_append, hverb, all_flatMap, Bool.true_and, all_eq_true]
  intro value hvalue
  refine all_eq_true.mpr fun c hc => ?_
  rcases mem_cons.mp hc with rfl | hc
  · rfl
  · rw [all_eq_true.mp (hwords value hvalue).2 c hc, Bool.or_true]

theorem isGraphic_of_isNameChar {c : Char} (h : isNameChar c = true) : isGraphic c = true := by
  simp only [isNameChar, isLetter, isDecimal, isGraphic, Bool.or_eq_true, Bool.and_eq_true, decide_eq_true_eq] at h ⊢
  rcases h with ((⟨hlo, hhi⟩ | ⟨hlo, hhi⟩) | ⟨hlo, hhi⟩) | rfl
  any_goals exact ⟨Char.le_trans (by decide) hlo, Char.le_trans hhi (by decide)⟩
  decide

/-- `[first][rest]*`, and nothing after it. -/
def IsRun (first rest : Char → Bool) (text : String) : Prop :=
  ∃ c cs, text.toList = c :: cs ∧ first c = true ∧ cs.all rest = true

section
variable {first rest : Char → Bool} {text : String}

/-- What the pattern accepts is a run, or a run and a newline. -/
theorem matchesRun_iff (hnewline : rest '\n' = false) : matchesRun first rest text.toList = true ↔
    IsRun first rest text ∨ ∃ word, IsRun first rest word ∧ text = word ++ "\n" := by
  have hstop : ∀ cs : List Char, cs.all rest = true → ∀ l, atEnd l = true → (cs ++ l).dropWhile rest = l := by
    intro cs hcs l hl
    rw [dropWhile_append_of_pos (all_eq_true.mp hcs)]
    rcases atEnd_iff.mp hl with rfl | rfl <;> simp [hnewline]
  constructor
  · intro h
    cases hl : text.toList with
    | nil => rw [hl] at h; cases h
    | cons c cs =>
      rw [hl, matchesRun, Bool.and_eq_true] at h
      have hsplit : cs.takeWhile rest ++ cs.dropWhile rest = cs := takeWhile_append_dropWhile
      rcases atEnd_iff.mp h.2 with hnil | hone
      · exact .inl ⟨c, cs, hl, h.1, by rw [← hsplit, hnil, append_nil]; exact all_takeWhile⟩
      · refine .inr ⟨String.ofList (c :: cs.takeWhile rest), ⟨c, _, String.toList_ofList, h.1, all_takeWhile⟩, ?_⟩
        rw [hone] at hsplit
        rw [← String.toList_inj, hl]
        simpa using hsplit.symm
  · rintro (⟨c, cs, hl, hc, hcs⟩ | ⟨word, ⟨c, cs, hl, hc, hcs⟩, rfl⟩)
    · have hnil := hstop cs hcs [] rfl
      rw [append_nil] at hnil
      rw [hl, matchesRun, hc, hnil]
      rfl
    · rw [String.toList_append, hl, show "\n".toList = ['\n'] from rfl, cons_append, matchesRun, hc,
        hstop cs hcs ['\n'] rfl]
      rfl

variable (hname : ∀ c, first c = true ∨ rest c = true → isNameChar c = true)
include hname

theorem IsRun.isWord (h : IsRun first rest text) : IsWord text := by
  obtain ⟨c, cs, hl, hc, hcs⟩ := h
  refine ⟨fun hs => by simp [hs] at hl, ?_⟩
  rw [hl, all_cons, isGraphic_of_isNameChar (hname c (.inl hc)), Bool.true_and]
  exact all_eq_true.mpr fun d hd => isGraphic_of_isNameChar (hname d (.inr (all_eq_true.mp hcs d hd)))

/-- A command that is sent after the check is a line of the verb and the value, unless the value has a newline. -/
theorem commandLine_iff {verb command : String} {sent : List String}
    (hverb : verb.toList.all (fun c => c = ' ' || isGraphic c) = true)
    (hcommand : command.toList = verb.toList ++ ' ' :: text.toList)
    (hsent : sent = if matchesRun first rest text.toList then [command] else []) :
    (∀ command ∈ sent, CommandLine verb [text] command) ↔ ¬ ∃ word, IsRun first rest word ∧ text = word ++ "\n" := by
  have hnewline : rest '\n' = false := by
    by_contra h
    exact absurd (hname '\n' (.inr (by simpa using h))) (by decide)
  rw [hsent]
  constructor
  · rintro hline ⟨word, hword, htext⟩
    rw [if_pos ((matchesRun_iff hnewline).mpr (.inr ⟨word, hword, htext⟩))] at hline
    have hwords := ((hline command mem_cons_self).words text mem_cons_self).2
    rw [htext, String.toList_append, all_append, Bool.and_eq_true] at hwords
    exact absurd hwords.2 (by decide)
  · intro hplain
    split
    next h =>
      have hword := (((matchesRun_iff hnewline).mp h).resolve_right hplain).isWord hname
      exact forall_mem_singleton.mpr (.of_words hverb (by simpa using hword) (by simpa using hcommand))
    next => nofun
end

theorem all_isGraphic_toDigits {b : Nat} (hb : 1 < b) (n : Nat) : (Nat.toDigits b n).all isGraphic = true := by
  have hsmall : (List.range 16).all (isGraphic ·.digitChar) = true := by decide
  have hdigit (d : Nat) : isGraphic d.digitChar = true := by
    rcases Nat.lt_or_ge d 16 with h | h
    · exact all_eq_true.mp hsmall d (mem_range.mpr h)
    · rw [Nat.digitChar_eq_star.mpr h]
      rfl
  induction n using Nat.strongRecOn with
  | ind n ih =>
    rw [Nat.toDigits_eq_if hb]
    split
    · simp [hdigit]
    · simp [hdigit, ih (n / b) (Nat.div_lt_self (by omega) hb)]

theorem readCommand_line {address byteCount : Int} (hcount : 0 ≤ byteCount) :
    CommandLine "-data-read-memory-bytes" ["0x" ++ String.ofList (Nat.toDigits 16 address.toNat), toString byteCount]
      (readCommand address byteCount) := by
  obtain ⟨n, rfl⟩ := Int.eq_ofNat_of_zero_le hcount
  have hdecimal : (toString (n : Int)).toList = Nat.toDigits 10 n := Nat.toList_repr
  have hverb : "-data-read-memory-bytes 0x".toList = "-data-read-memory-bytes".toList ++ ' ' :: "0x".toList := by
    decide
  refine .of_words (by decide) (forall_mem_cons.mpr ⟨?_, forall_mem_singleton.mpr ?_⟩) ?_
  · simp [IsWord, ← String.toList_inj, all_isGraphic_toDigits (show 1 < 16 by decide), isGraphic]
  · rw [IsWord, ← String.toList_inj.ne, hdecimal]
    exact ⟨Nat.toDigits_ne_nil, all_isGraphic_toDigits (by decide) n⟩
  · unfold readCommand
    rw [String.toList_append, String.toList_append, String.toList_append, hverb]
    simp

/-- **Every command is a single line of the verb and the caller's values**, each a word of its own, of every location
    and every id but an accepted one with a newline after it. Registers and memory have no exception. -/
theorem commands_single_line {α : Type} (write : String → Except Err (List MiRecord))
    (breakpointRef : List MiRecord → Except Err α) (registers : List MiRecord → List MiRecord → Except Err α) :
    (∀ location : String, (∀ command ∈ (setBreakpoint write breakpointRef location).sent,
        CommandLine "-break-insert -h" [location] command) ↔
      ¬ ∃ symbol, IsRun (fun c => isLetter c || c = '_') isNameChar symbol ∧ location = symbol ++ "\n") ∧
    (∀ number : String, (∀ command ∈ (clearBreakpoint write number).sent,
        CommandLine "-break-delete" [number] command) ↔
      ¬ ∃ digits, IsRun isDecimal isDecimal digits ∧ number = digits ++ "\n") ∧
    (∀ names, ∀ command ∈ (readRegisters write registers names).sent,
      CommandLine "-data-list-register-names" [] command ∨ CommandLine "-data-list-register-values x" [] command) ∧
    ∀ address byteCount, ∀ command ∈ (readMemoryCall write address byteCount).sent,
      CommandLine "-data-read-memory-bytes"
        ["0x" ++ String.ofList (Nat.toDigits 16 address.toNat), toString byteCount] command := by
  refine ⟨fun location => ?_, fun number => ?_, fun names => ?_, fun address byteCount => ?_⟩
  · have hcommand : ("-break-insert -h " ++ location).toList = "-break-insert -h".toList ++ ' ' :: location.toList := by
      simp
    refine commandLine_iff (by simp [isNameChar]; tauto) (by decide) hcommand ?_
    unfold setBreakpoint
    split <;> rfl
  · have hcommand : ("-break-delete " ++ number).toList = "-break-delete".toList ++ ' ' :: number.toList := by simp
    refine commandLine_iff (by simp [isNameChar]; tauto) (by decide) hcommand ?_
    unfold clearBreakpoint
    split <;> rfl
  · have hnames : CommandLine "-data-list-register-names" [] "-data-list-register-names" :=
      .of_words (by decide) nofun (by simp)
    have hvalues : CommandLine "-data-list-register-values x" [] "-data-list-register-values x" :=
      .of_words (by decide) nofun (by simp)
    unfold readRegisters
    split
    · nofun
    split
    · nofun
    split
    · exact forall_mem_singleton.mpr (.inl hnames)
    · exact forall_mem_cons.mpr ⟨.inl hnames, forall_mem_singleton.mpr (.inr hvalues)⟩
  · unfold readMemoryCall
    split
    next => nofun
    next => exact forall_mem_singleton.mpr (readCommand_line (by omega))

/-- A newline after the value reaches the controller. -/
theorem newline_passed :
    (setBreakpoint (fun _ => .ok []) .ok "start_kernel\n").sent = ["-break-insert -h start_kernel\n"] ∧
    (clearBreakpoint (fun _ => .ok []) "1\n").sent = ["-break-delete 1\n"] := by
  decide +kernel
end Kdive.Debug
