import Mathlib.Data.UInt
import RestyFfi.Base.CString
import RestyFfi.Worker.Basic

/-!
# The configuration of a loader

The loaders of Python, Java and Node.js take a configuration `<module/class>,<function>,<cfg>`,
whose last part may be missing. The first two are written in C and cut the buffer in place by two
calls of `strsep`; what a pointer designates is then read from the buffer these leave.
-/

namespace RestyFfi
open CString

def comma : UInt8 := 44

def dot : UInt8 := 46

def slash : UInt8 := 47

def question : UInt8 := 63

/-- The `?` of a module or class to reload. -/
def mark (reload : Bool) : Bytes := if reload then [question] else []

theorem notMem_mark {b : UInt8} {reload : Bool} (h : b ≠ question) : b ∉ mark reload := by
  cases reload <;> simp [mark, h]

/-- `<func>[,<cfg>]` -/
def csvRest (func : Bytes) (cfg : Option Bytes) : Bytes := func ++ cfg.elim [] (comma :: ·)

/-- `<module>,<func>[,<cfg>]` -/
def csv (module func : Bytes) (cfg : Option Bytes) : Bytes := module ++ comma :: csvRest func cfg

/-- The buffer after the cuts: each part ends in a 0 of its own. -/
def cutBuf (module func : Bytes) (cfg : Option Bytes) : Bytes :=
  module ++ 0 :: (func ++ 0 :: cfg.elim [] (· ++ [0]))

variable {module func : Bytes} {cfg : Option Bytes}

theorem splitOn_csv (hm : comma ∉ module) (hf : comma ∉ func) :
    (csv module func cfg).splitOn comma = module :: func :: cfg.elim [] (·.splitOn comma) := by
  rw [csv, List.splitOn_append_cons_self_of_not_mem hm, csvRest]
  cases cfg with
  | none => simp [List.splitOn_eq_singleton hf]
  | some c => rw [Option.elim_some, List.splitOn_append_cons_self_of_not_mem hf, Option.elim_some]

theorem zero_notMem_csv (hm : 0 ∉ module) (h : 0 ∉ csvRest func cfg) : 0 ∉ csv module func cfg := by
  have hcomma : (0 : UInt8) ≠ comma := by decide
  simp [csv, hm, h, hcomma]

theorem zero_notMem_csvRest (hf : 0 ∉ func) (hc : ∀ c ∈ cfg, 0 ∉ c) : 0 ∉ csvRest func cfg := by
  cases cfg with
  | none => simpa [csvRest] using hf
  | some c => simp [csvRest, hf, hc c rfl, comma]

theorem strsep_csv (hm : 0 ∉ module) (hm' : comma ∉ module) (hf : 0 ∉ func)
    (hc : ∀ c ∈ cfg, 0 ∉ c) : strsep comma (csv module func cfg ++ [0]) (some 0) =
      ⟨some 0, some (module.length + 1), module ++ 0 :: (csvRest func cfg ++ [0])⟩ := by
  have key : strsep comma ([] ++ (module ++ comma :: (csvRest func cfg ++ [0]))) (some 0) =
      ⟨some 0, some (0 + module.length + 1), [] ++ (module ++ 0 :: (csvRest func cfg ++ [0]))⟩ :=
    strsep_append hm hm' (by decide) (zero_notMem_csvRest hf hc)
  simpa [csv] using key

/-- The second cut finds the function, whatever the module has become. -/
theorem strsep_csvRest (hf : 0 ∉ func) (hf' : comma ∉ func) (hc : ∀ c ∈ cfg, 0 ∉ c) :
    strsep comma (module ++ 0 :: (csvRest func cfg ++ [0])) (some (module.length + 1)) =
      ⟨some (module.length + 1), cfg.map fun _ => module.length + 1 + func.length + 1,
        cutBuf module func cfg⟩ := by
  have hlen : (module ++ [0]).length = module.length + 1 := by simp
  cases cfg with
  | none =>
    have key : strsep comma (module ++ [0] ++ (func ++ [0])) (some (module ++ [0]).length) =
        ⟨some (module ++ [0]).length, none, module ++ [0] ++ (func ++ [0])⟩ := strsep_last hf hf'
    rw [hlen] at key
    simpa [csvRest, cutBuf] using key
  | some c =>
    have key : strsep comma (module ++ [0] ++ (func ++ comma :: (c ++ [0])))
        (some (module ++ [0]).length) = ⟨some (module ++ [0]).length,
          some ((module ++ [0]).length + func.length + 1),
          module ++ [0] ++ (func ++ 0 :: (c ++ [0]))⟩ :=
      strsep_append hf hf' (by decide) (hc c rfl)
    rw [hlen] at key
    simpa [csvRest, cutBuf] using key

theorem str_csv (hm : 0 ∉ module) (hf : 0 ∉ func) (hc : ∀ c ∈ cfg, 0 ∉ c) :
    str (csv module func cfg ++ [0]) 0 = csv module func cfg := by
  have key : str ([] ++ (csv module func cfg ++ [0])) 0 = csv module func cfg :=
    str_append (zero_notMem_csv hm (zero_notMem_csvRest hf hc))
  exact key

theorem str_cutBuf_module (hm : 0 ∉ module) : str (cutBuf module func cfg) 0 = module := by
  have h : str ([] ++ cutBuf module func cfg) 0 = module := str_append hm
  exact h

theorem str_cutBuf_func (hf : 0 ∉ func) :
    str (cutBuf module func cfg) (module.length + 1) = func := by
  have h : str (module ++ [0] ++ (func ++ 0 :: cfg.elim [] (· ++ [0]))) (module ++ [0]).length =
    func := str_append hf
  simpa [cutBuf] using h

theorem map_str_cutBuf_cfg (hc : ∀ c ∈ cfg, 0 ∉ c) :
    (cfg.map fun _ => module.length + 1 + func.length + 1).map (str (cutBuf module func cfg)) =
      cfg := by
  cases cfg with
  | none => rfl
  | some c =>
    have h : str (module ++ 0 :: func ++ [0] ++ (c ++ [0])) (module ++ 0 :: func ++ [0]).length =
        c := str_append (hc c rfl)
    have hlen : (module ++ 0 :: func ++ [0]).length = module.length + 1 + func.length + 1 := by
      simp only [List.length_append, List.length_cons, List.length_nil]
      omega
    rw [hlen] at h
    simpa [cutBuf] using h

end RestyFfi
