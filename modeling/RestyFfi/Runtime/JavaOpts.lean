import RestyFfi.Runtime.Csv

/-!
# The options of the Java virtual machine

The first `libffi_init` of the Java loader creates the virtual machine. Its options are the class
path and the tokens of `JAVA_OPTS`, which `strsep` cuts in a copy that is freed afterwards. The loop
ends when the tokens are exhausted, with a NULL pointer, or when the array of options is full. Then
the pointer is the rest of the tokens, and this is what is freed.
-/

namespace RestyFfi
open CString

def space : UInt8 := 32

/-- `MAX_OPTS` -/
def maxOpts : Nat := 50

/-- A pointer into the text of the class-path option, or into the copy of `JAVA_OPTS`. -/
inductive OptPtr where
  | path
  | opts (offset : Nat)
  deriving DecidableEq

/-- `options[vm_args.nOptions++].optionString = p`, for the options written so far; `none` is a
write beyond the array. -/
def addOption (options : List OptPtr) (p : OptPtr) : Option (List OptPtr) :=
  if options.length < maxOpts then some (options ++ [p]) else none

/-- The copy of `JAVA_OPTS`, `opts` and the options, at the end of the loop. -/
structure OptionLoop where
  buf : Bytes
  opts : Option Nat
  options : List OptPtr

/-- `while ((opt = strsep(&opts, " ")))` -/
def optionLoop (buf : Bytes) (opts : Option Nat) (options : List OptPtr) : Option OptionLoop :=
  match _h : (strsep space buf opts).token with
  | none => some ⟨(strsep space buf opts).buf, (strsep space buf opts).rest, options⟩
  | some opt => do
    let options ← addOption options (.opts opt)
    if options.length = maxOpts then
      some ⟨(strsep space buf opts).buf, (strsep space buf opts).rest, options⟩
    else optionLoop (strsep space buf opts).buf (strsep space buf opts).rest options
termination_by left buf opts
decreasing_by exact left_strsep_lt _h

/-- What `getenv` returns, and whether `asprintf` and `strdup` find memory. -/
structure VmEnv where
  classPath : Option Bytes
  javaOpts : Option Bytes
  asprintfOk : Bool
  strdupOk : Bool
  zero_notMem : ∀ s ∈ javaOpts, 0 ∉ s

/-- `"-Djava.class.path=%s"` -/
def classPathOption (classPath : Bytes) : Bytes := ascii "-Djava.class.path=" ++ classPath

/-- What `JNI_CreateJavaVM` is called with: the text at `path`, the copy of `JAVA_OPTS`, `opts`, and
the options. -/
structure VmArgs where
  path : Option Bytes
  buf : Bytes
  opts : Option Nat
  options : List OptPtr

/-- The options as strings. -/
def VmArgs.strings (v : VmArgs) : List Bytes :=
  v.options.map fun
    | .path => v.path.getD []
    | .opts p => str v.buf p

/-- The pointers that are freed behind the call. -/
def VmArgs.frees (v : VmArgs) : List OptPtr :=
  (v.path.map fun _ => .path).toList ++ (v.opts.map .opts).toList

/-- How the preparation of the options ends; without memory for the class path it is `RET(1)`. -/
inductive VmOptions where
  | noMemory
  | ready (v : VmArgs)

def addPath (path : Option Bytes) : Option (List OptPtr) :=
  if path.isSome then addOption [] .path else some []

/-- The part of `libffi_init` before `JNI_CreateJavaVM`. `none` is a write beyond the array. -/
def vmOptions (env : VmEnv) : Option VmOptions := do
  if env.classPath.isSome && !env.asprintfOk then return .noMemory
  let path := env.classPath.map classPathOption
  let options ← addPath path
  match env.javaOpts with
  | none => return .ready ⟨path, [], none, options⟩
  | some javaOpts =>
    let opts := if env.strdupOk then some 0 else none
    let loop ← optionLoop (javaOpts ++ [0]) opts options
    return .ready ⟨path, loop.buf, loop.opts, loop.options⟩

/-- The options that are meant. -/
def VmEnv.wanted (env : VmEnv) : List Bytes :=
  (env.classPath.map classPathOption).toList ++ env.javaOpts.elim [] (·.splitOn space)

/-- What the loop is for. -/
structure Tokenised (env : VmEnv) : Prop where
  inBounds : vmOptions env ≠ none
  recorded : ∀ {v}, vmOptions env = some (.ready v) → v.strings = env.wanted.take maxOpts
  freed : ∀ {v p}, vmOptions env = some (.ready v) → .opts p ∈ v.frees → p = 0

variable {s t pre buf buf' : Bytes} {opts rest : Option Nat} {options : List OptPtr} {p : Nat}

theorem addOption_of_lt {q : OptPtr} (hlt : options.length < maxOpts) :
    addOption options q = some (options ++ [q]) := by
  rw [addOption, if_pos hlt]

theorem optionLoop_null : optionLoop buf none options = some ⟨buf, none, options⟩ := by
  rw [optionLoop]
  rfl

theorem optionLoop_token (hcut : strsep space buf opts = ⟨some p, rest, buf'⟩)
    (hlt : options.length < maxOpts) :
    optionLoop buf opts options =
      if options.length + 1 = maxOpts then some ⟨buf', rest, options ++ [.opts p]⟩
      else optionLoop buf' rest (options ++ [.opts p]) := by
  rw [optionLoop]
  split
  · rename_i hnone
    rw [hcut] at hnone
    cases hnone
  · rename_i q hsome
    rw [hcut] at hsome
    cases hsome
    rw [addOption_of_lt hlt, Option.bind_eq_bind, Option.bind_some, hcut, List.length_append,
      List.length_singleton]

/-- What the loop does with the text `s` behind `pre`. -/
structure LoopSpec (pre s : Bytes) (options : List OptPtr) (loop : OptionLoop) : Prop where
  /-- What was cut off before stays, -/
  kept : pre <+: loop.buf
  /-- the tokens that fit are recorded, -/
  recorded : ∃ ps : List Nat, loop.options = options ++ ps.map .opts ∧
    ps.map (str loop.buf) = (s.splitOn space).take (maxOpts - options.length)
  /-- and the pointer is NULL if these are all. -/
  done : loop.opts = none ↔ options.length + (s.splitOn space).length ≤ maxOpts
  inside : ∀ {p}, loop.opts = some p → pre.length < p

theorem LoopSpec.last (hs : 0 ∉ s) (hd : space ∉ s) (hlt : options.length < maxOpts) :
    LoopSpec pre s options ⟨pre ++ (s ++ [0]), none, options ++ [.opts pre.length]⟩ where
  kept := List.prefix_append ..
  recorded := by
    refine ⟨[pre.length], rfl, ?_⟩
    rw [List.splitOn_eq_singleton hd, List.take_of_length_le (by simp; omega)]
    simp [str_append hs]
  done := by
    rw [List.splitOn_eq_singleton hd]
    exact iff_of_true rfl hlt
  inside h := nomatch h

theorem length_splitOn_pos : 0 < (s.splitOn space).length :=
  List.length_pos_iff.mpr (List.splitOn_ne_nil space s)

/-- The array is full, but there is text left. -/
theorem LoopSpec.full (ht : 0 ∉ t) (hd : space ∉ t) (hfull : options.length + 1 = maxOpts) :
    LoopSpec pre (t ++ space :: s) options
      ⟨pre ++ (t ++ 0 :: (s ++ [0])), some (pre.length + t.length + 1),
        options ++ [.opts pre.length]⟩ where
  kept := List.prefix_append ..
  recorded := by
    have hone : maxOpts - options.length = 1 := by omega
    refine ⟨[pre.length], rfl, ?_⟩
    rw [List.splitOn_append_cons_self_of_not_mem hd, hone]
    simp [str_append ht]
  done := by
    have hpos := length_splitOn_pos (s := s)
    rw [List.splitOn_append_cons_self_of_not_mem hd, List.length_cons]
    exact iff_of_false (by simp) (by omega)
  inside h := by
    cases h
    omega

theorem LoopSpec.cut {loop : OptionLoop} (ht : 0 ∉ t) (hd : space ∉ t)
    (hlt : options.length + 1 < maxOpts)
    (h : LoopSpec (pre ++ (t ++ [0])) s (options ++ [.opts pre.length]) loop) :
    LoopSpec pre (t ++ space :: s) options loop where
  kept := (List.prefix_append ..).trans h.kept
  recorded := by
    obtain ⟨ps, hps, htexts⟩ := h.recorded
    obtain ⟨post, hbuf⟩ := h.kept
    have hstr : str loop.buf pre.length = t := by
      rw [← hbuf, List.append_assoc, List.append_assoc]
      exact str_append ht
    have hroom : maxOpts - options.length = maxOpts - (options.length + 1) + 1 := by omega
    rw [List.length_append, List.length_singleton] at htexts
    refine ⟨pre.length :: ps, by rw [hps, List.append_assoc]; rfl, ?_⟩
    rw [List.splitOn_append_cons_self_of_not_mem hd, hroom, List.take_succ_cons, List.map_cons,
      hstr, htexts]
  done := by
    rw [h.done, List.splitOn_append_cons_self_of_not_mem hd, List.length_append,
      List.length_singleton, List.length_cons]
    omega
  inside hp := by
    have := h.inside hp
    rw [List.length_append] at this
    omega

/-- The loop, started behind `pre`. -/
theorem optionLoop_spec (pre : Bytes) (hs : 0 ∉ s) (hlt : options.length < maxOpts) :
    ∃ loop, optionLoop (pre ++ (s ++ [0])) (some pre.length) options = some loop ∧
      LoopSpec pre s options loop := by
  induction s using sep_induction (d := space) generalizing pre options with
  | last s hd =>
    refine ⟨_, ?_, .last hs hd hlt⟩
    rw [optionLoop_token (strsep_last hs hd) hlt]
    split_ifs
    · rfl
    · exact optionLoop_null
  | cut t s hd ih =>
    simp only [List.mem_append, List.mem_cons, not_or] at hs
    obtain ⟨ht, -, hs⟩ := hs
    have hcut : strsep space (pre ++ (t ++ space :: s ++ [0])) (some pre.length) =
        ⟨some pre.length, some (pre.length + t.length + 1), pre ++ (t ++ 0 :: (s ++ [0]))⟩ := by
      rw [List.append_assoc, List.cons_append]
      exact strsep_append ht hd (by decide) hs
    rw [optionLoop_token hcut hlt]
    split_ifs with hfull
    · exact ⟨_, rfl, .full ht hd hfull⟩
    · have hroom : (options ++ [OptPtr.opts pre.length]).length < maxOpts := by
        simp
        omega
      obtain ⟨loop, hrun, hloop⟩ := ih (pre ++ (t ++ [0])) hs hroom
      refine ⟨loop, ?_, .cut ht hd (by omega) hloop⟩
      rw [← hrun]
      simp [Nat.add_assoc]

/-! ## The whole preparation -/

variable {env : VmEnv} {javaOpts : Bytes}

/-- The class-path option, in the first slot. -/
def VmEnv.pathOptions (env : VmEnv) : List OptPtr := (env.classPath.map fun _ => .path).toList

theorem VmEnv.length_pathOptions_lt (env : VmEnv) : env.pathOptions.length < maxOpts := by
  unfold pathOptions
  cases env.classPath <;> simp [maxOpts]

theorem vmOptions_noMemory (h : env.classPath.isSome = true) (hfail : env.asprintfOk = false) :
    vmOptions env = some .noMemory := by
  simp [vmOptions, h, hfail]

theorem vmOptions_eq (hok : env.classPath.isSome = true → env.asprintfOk = true) :
    vmOptions env = match env.javaOpts with
      | none => some (.ready ⟨env.classPath.map classPathOption, [], none, env.pathOptions⟩)
      | some javaOpts =>
        (optionLoop (javaOpts ++ [0]) (if env.strdupOk then some 0 else none) env.pathOptions).map
          fun loop => .ready
            ⟨env.classPath.map classPathOption, loop.buf, loop.opts, loop.options⟩ := by
  have hpath : addPath (env.classPath.map classPathOption) = some env.pathOptions := by
    unfold VmEnv.pathOptions
    cases env.classPath <;> rfl
  have hgo : (env.classPath.isSome && !env.asprintfOk) = false := by
    cases hc : env.classPath.isSome with
    | false => rfl
    | true => simp [hok hc]
  simp only [vmOptions, hgo, Bool.false_eq_true, if_false, hpath, Option.bind_eq_bind,
    Option.bind_some]
  cases env.javaOpts with
  | none => rfl
  | some javaOpts => exact Option.map_eq_bind.symm

theorem VmArgs.opts_mem_frees {v : VmArgs} : .opts p ∈ v.frees ↔ v.opts = some p := by
  obtain ⟨path, buf, opts, options⟩ := v
  cases path <;> cases opts <;> simp [VmArgs.frees, eq_comm]

/-- The class-path option is the first string. -/
theorem VmArgs.strings_pathOptions (env : VmEnv) (buf : Bytes) (opts : Option Nat) (ps : List Nat) :
    (VmArgs.mk (env.classPath.map classPathOption) buf opts
      (env.pathOptions ++ ps.map .opts)).strings =
      (env.classPath.map classPathOption).toList ++ ps.map (str buf) := by
  unfold VmEnv.pathOptions VmArgs.strings
  cases env.classPath <;> simp [Function.comp_def]

theorem VmEnv.length_pathOptions (env : VmEnv) :
    env.pathOptions.length = (env.classPath.map classPathOption).toList.length := by
  unfold pathOptions
  cases env.classPath <;> rfl

/-- Where there is memory, the options are the wanted ones as far as there is room, and `opts` ends
as NULL if there is room for all. Otherwise it points behind the first character of the copy. -/
theorem vmOptions_spec (hok : env.classPath.isSome = true → env.asprintfOk = true)
    (hdup : env.javaOpts.isSome = true → env.strdupOk = true) :
    ∃ v, vmOptions env = some (.ready v) ∧ v.strings = env.wanted.take maxOpts ∧
      (v.opts = none ↔ env.wanted.length ≤ maxOpts) ∧ ∀ {p}, v.opts = some p → 0 < p := by
  have hroom := env.length_pathOptions_lt
  rw [vmOptions_eq hok]
  cases hj : env.javaOpts with
  | none =>
    have hwanted : env.wanted = (env.classPath.map classPathOption).toList := by
      simp [VmEnv.wanted, hj]
    have hlen : env.wanted.length ≤ maxOpts := by
      rw [hwanted, ← env.length_pathOptions]
      exact Nat.le_of_lt hroom
    refine ⟨_, rfl, ?_, iff_of_true rfl hlen, fun h => nomatch h⟩
    have hstrings := VmArgs.strings_pathOptions env [] none []
    rw [List.map_nil, List.map_nil, List.append_nil, List.append_nil] at hstrings
    rw [hstrings, List.take_of_length_le hlen, hwanted]
  | some javaOpts =>
    have hwanted : env.wanted =
        (env.classPath.map classPathOption).toList ++ javaOpts.splitOn space := by
      simp [VmEnv.wanted, hj]
    obtain ⟨loop, hrun, hloop⟩ :=
      optionLoop_spec [] (env.zero_notMem javaOpts hj) hroom
    obtain ⟨ps, hps, htexts⟩ := hloop.recorded
    rw [hdup (by rw [hj]; rfl)]
    rw [List.nil_append, List.length_nil] at hrun
    simp only [if_true, hrun, Option.map_some]
    refine ⟨_, rfl, ?_, ?_, hloop.inside⟩
    · have htake : (env.classPath.map classPathOption).toList.take maxOpts =
          (env.classPath.map classPathOption).toList := by
        rw [env.length_pathOptions] at hroom
        exact List.take_of_length_le (Nat.le_of_lt hroom)
      rw [hps, VmArgs.strings_pathOptions, htexts, hwanted, List.take_append, htake,
        env.length_pathOptions]
    · rw [hloop.done, hwanted, List.length_append, env.length_pathOptions]

theorem Tokenised.strdupOk (T : Tokenised env)
    (hok : env.classPath.isSome = true → env.asprintfOk = true)
    (hj : env.javaOpts.isSome = true) : env.strdupOk = true := by
  by_contra hdup
  obtain ⟨javaOpts, hjava⟩ := Option.isSome_iff_exists.mp hj
  have hrun : vmOptions env = some (.ready
      ⟨env.classPath.map classPathOption, javaOpts ++ [0], none, env.pathOptions⟩) := by
    simp only [vmOptions_eq hok, hjava, if_neg hdup, optionLoop_null, Option.map_some]
  -- no token is recorded, although there is at least one
  have hlen := congrArg List.length (T.recorded hrun)
  have hroom := env.length_pathOptions_lt
  have hpos := length_splitOn_pos (s := javaOpts)
  simp only [VmArgs.strings, List.length_map, VmEnv.wanted, hjava, Option.elim_some,
    List.length_take, List.length_append, ← env.length_pathOptions] at hlen
  omega

/-- In any case the array is not overrun. -/
theorem vmOptions_ne_none (env : VmEnv) : vmOptions env ≠ none := by
  by_cases hfail : env.classPath.isSome = true ∧ env.asprintfOk = false
  · simp [vmOptions_noMemory hfail.1 hfail.2]
  have hok : env.classPath.isSome = true → env.asprintfOk = true := by simpa using hfail
  by_cases hdup : env.strdupOk = true
  · obtain ⟨v, hrun, -⟩ := vmOptions_spec hok fun _ => hdup
    simp [hrun]
  · rw [vmOptions_eq hok]
    cases env.javaOpts <;> simp [hdup, optionLoop_null]

/-- **JAVA_OPTS.** The options are written, recorded and freed as they should be if and only if
there is room for all of them, and memory; or the class path finds no memory, and there is no loop.
-/
theorem tokenised_iff : Tokenised env ↔
    (env.classPath.isSome = true ∧ env.asprintfOk = false) ∨
      (env.wanted.length ≤ maxOpts ∧ (env.javaOpts.isSome = true → env.strdupOk = true)) := by
  by_cases hfail : env.classPath.isSome = true ∧ env.asprintfOk = false
  · have hrun := vmOptions_noMemory hfail.1 hfail.2
    refine iff_of_true ⟨vmOptions_ne_none env, fun {v} h => ?_, fun {v p} h => ?_⟩ (.inl hfail)
    · rw [hrun] at h
      cases h
    · rw [hrun] at h
      cases h
  have hok : env.classPath.isSome = true → env.asprintfOk = true := by simpa using hfail
  rw [or_iff_right hfail]
  constructor
  · intro T
    have hdup := T.strdupOk hok
    obtain ⟨v, hrun, -, hnull, hinside⟩ := vmOptions_spec hok hdup
    refine ⟨hnull.mp ?_, hdup⟩
    by_contra hne
    obtain ⟨p, hp⟩ := Option.ne_none_iff_exists'.mp hne
    exact absurd (T.freed hrun (VmArgs.opts_mem_frees.mpr hp)) (hinside hp).ne'
  · rintro ⟨hfits, hdup⟩
    obtain ⟨v, hrun, hstrings, hnull, -⟩ := vmOptions_spec hok hdup
    refine ⟨vmOptions_ne_none env, fun {v'} h => ?_, fun {v' p} h hp => ?_⟩
    · rw [hrun] at h
      cases h
      exact hstrings
    · rw [hrun] at h
      cases h
      rw [VmArgs.opts_mem_frees, hnull.mpr hfits] at hp
      cases hp

/-- 51 times the option `-v`. -/
def manyOpts : VmEnv where
  classPath := none
  javaOpts := some ((List.replicate 50 [45, 118, space]).flatten ++ [45, 118])
  asprintfOk := true
  strdupOk := true
  zero_notMem := by
    rintro s ⟨⟩
    decide

/-- A pointer into the block of `strdup` is freed. -/
theorem manyOpts_not_tokenised : ¬ Tokenised manyOpts := by
  intro T
  have hok : manyOpts.classPath.isSome = true → manyOpts.asprintfOk = true := nofun
  obtain ⟨v, hrun, -, hnull, hinside⟩ := vmOptions_spec hok fun _ => rfl
  have hmany : ¬ manyOpts.wanted.length ≤ maxOpts := by decide
  obtain ⟨p, hp⟩ := Option.ne_none_iff_exists'.mp (mt hnull.mp hmany)
  exact absurd (T.freed hrun (VmArgs.opts_mem_frees.mpr hp)) (hinside hp).ne'

end RestyFfi
