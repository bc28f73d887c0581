import RestyFfi.Runtime.ClassLoader

/-!
# The Java loader

`libffi_init` of the Java loader takes `class[?],method[,cfg]` and calls the method through JNI,
once there is a virtual machine. With a `?` it calls `Loader.init` instead, on the whole
configuration: this splits the configuration once more and calls the method of a class that it loads
anew.
-/

namespace RestyFfi
open CString

/-- A static method `(String, long) -> int`; `none` is an exception. -/
structure Method where
  isPublic : Bool
  body : Option Bytes → UInt64 → Option Int

/-- A class with the methods of that type, those it declares and those of its superclasses. -/
structure JavaClass where
  isPublic : Bool
  declared : Bytes → Option Method
  inherited : Bytes → Option Method

/-- `GetStaticMethodID`, which neither minds where a method is declared nor who may call it. -/
def JavaClass.getStaticMethodID (cls : JavaClass) (name : Bytes) : Option Method :=
  cls.declared name <|> cls.inherited name

/-- The virtual machine and the files below it, with `defineClass` and the class loader of the
application. -/
structure Jvm where
  fs : Bytes → Option (Bytes → Option Contents)
  classpath : Option Bytes
  define : Bytes → Bytes → Option JavaClass
  parent : Bytes → Option JavaClass

structure Invocation where
  cls : Bytes
  method : Bytes
  cfg : Option Bytes
  tq : UInt64
deriving DecidableEq

/-- What comes of a call: the method of the configuration that was invoked, if any, and the return
code, which JNI leaves undefined when an exception is pending. -/
structure InitResult where
  invoked : Option Invocation
  rc : Option Int
deriving DecidableEq

/-- `"init"` -/
def initName : Bytes := [105, 110, 105, 116]

/-! ## `Loader.init` -/

/-- Only the first is caught by `Loader.init`. -/
inductive Throwable where
  | exception
  | error

def orThrow (o : Option α) : Except Throwable α := o.elim (.error .exception) .ok

@[simp] theorem orThrow_some (a : α) : orThrow (some a) = .ok a := rfl

@[simp] theorem orThrow_none : orThrow (none : Option α) = .error .exception := rfl

@[simp] theorem ok_bind (a : α) (f : α → Except Throwable β) : (Except.ok a >>= f) = f a := rfl

@[simp] theorem error_bind (e : Throwable) (f : α → Except Throwable β) :
    (Except.error e >>= f) = .error e := rfl

namespace Jvm

/-- `new DynamicClassLoader(paths, prefix).load(clsName)` -/
def load (jvm : Jvm) (clsName : Bytes) : Except Throwable JavaClass := do
  let cl ← orThrow (DynamicClassLoader.forClass jvm.fs jvm.classpath clsName)
  match cl.answer (fun name data => (jvm.define name data).isSome) [] clsName with
  | .own data => orThrow (jvm.define clsName data)
  | .threw _ => .error .error
  | .raised => .error .exception
  | .parent => orThrow (jvm.parent clsName)

/-- The class, the method and the configuration that `Loader.init` takes from its argument. -/
def reflect (jvm : Jvm) (cfg : Bytes) : Except Throwable (Bytes × Bytes × Method × Bytes) := do
  let cfgItems := javaSplit comma cfg
  let clsName ← orThrow cfgItems[0]?
  if clsName = [] then .error .exception
  else
    let clsName := clsName.dropLast
    let cls ← jvm.load clsName
    let name ← orThrow cfgItems[1]?
    let method ← orThrow (cls.declared name)
    if cls.isPublic && method.isPublic then .ok (clsName, name, method, cfgItems[2]?.getD [])
    else .error .exception

/-- `Loader.init`: an exception of the method itself is caught too. -/
def loaderInit (jvm : Jvm) (cfg : Bytes) (tq : UInt64) : InitResult :=
  match jvm.reflect cfg with
  | .error .exception => ⟨none, some 1⟩
  | .error .error => ⟨none, none⟩
  | .ok (clsName, name, method, item) =>
    ⟨some ⟨clsName, name, some item, tq⟩, some ((method.body (some item) tq).getD 1)⟩

/-! ## `libffi_init` -/

/-- The loop that writes a class name in the way of JNI. -/
def dotsToSlashes (buf : Bytes) : Bytes := toSlashes (str buf 0) ++ buf.drop (str buf 0).length

def ofSlashes (name : Bytes) : Bytes := name.map fun b => if b = slash then dot else b

/-- The call with the class and the method found through JNI. -/
def callStatic (jvm : Jvm) (cls : Bytes) (method cfg : Option Nat) (buf : Bytes) (tq : UInt64) :
    Option InitResult :=
  match jvm.parent (ofSlashes cls) with
  | none => some ⟨none, some 1⟩
  | some found => do
    let name := str buf (← method)
    match found.getStaticMethodID name with
    | none => some ⟨none, some 1⟩
    | some m =>
      let jcfg := cfg.map (str buf)
      some ⟨some ⟨ofSlashes cls, name, jcfg, tq⟩, m.body jcfg tq⟩

/-- `libffi_init`, when there is a virtual machine. `resty.ffi.Loader` has one method of the type,
`init`. `none` is a crash: an empty class name, or no method. -/
def libffiInit (jvm : Jvm) (cfg : Bytes) (tq : UInt64) : Option InitResult := do
  let origCfg := str cfg 0
  let first := strsep comma cfg (some 0)
  let last ← (str first.buf 0).getLast?
  let dynFlag := last = question
  let buf := if dynFlag then first.buf else dotsToSlashes first.buf
  let second := strsep comma buf first.rest
  if dynFlag then
    let name := str second.buf (← second.token)
    return if name = initName then jvm.loaderInit origCfg tq else ⟨none, some 1⟩
  else jvm.callStatic (str second.buf 0) second.token second.rest second.buf tq

/-! ## The plain path -/

variable {jvm : Jvm} {c m : Bytes} {s : Option Bytes} {tq : UInt64} {cls : JavaClass} {meth : Method}

/-- A class name: a simple name, behind a package or not. -/
inductive IsClassName : Bytes → Prop
  | simple : C ≠ [] → dot ∉ C → slash ∉ C → IsClassName C
  | inPackage : C ≠ [] → dot ∉ C → slash ∉ C → slash ∉ pkg → IsClassName (pkg ++ dot :: C)

theorem IsClassName.ne_nil (h : IsClassName c) : c ≠ [] := by
  cases h with
  | simple hC => exact hC
  | inPackage => simp

theorem IsClassName.slash_notMem (h : IsClassName c) : slash ∉ c := by
  cases h with
  | simple _ _ hs => exact hs
  | inPackage _ _ hs hp =>
    have hdot : slash ≠ dot := by decide
    simp [hs, hp, hdot]

theorem ofSlashes_toSlashes (h : slash ∉ c) : ofSlashes (toSlashes c) = c := by
  rw [ofSlashes, toSlashes, List.map_map]
  conv_rhs => rw [← List.map_id c]
  refine List.map_congr_left fun b hb => ?_
  have hne : b ≠ slash := fun hb' => h (hb' ▸ hb)
  by_cases hdot : b = dot <;> simp [hdot, hne]

theorem zero_notMem_toSlashes (h : 0 ∉ c) : 0 ∉ toSlashes c := by
  intro hmem
  obtain ⟨b, hb, heq⟩ := List.mem_map.mp hmem
  split_ifs at heq
  · exact absurd heq (by decide)
  · exact h (heq ▸ hb)

theorem dotsToSlashes_eq {post : Bytes} (h : 0 ∉ c) :
    dotsToSlashes (c ++ 0 :: post) = toSlashes c ++ 0 :: post := by
  have hstr : str ([] ++ (c ++ 0 :: post)) 0 = c := str_append h
  rw [List.nil_append] at hstr
  rw [dotsToSlashes, hstr, List.drop_left]

/-- What a configuration consists of: names and text without a 0, and commas only in the text. -/
structure IsCsv (c m : Bytes) (s : Option Bytes) : Prop where
  cls : 0 ∉ c ∧ comma ∉ c
  method : 0 ∉ m ∧ comma ∉ m
  cfg : ∀ t ∈ s, 0 ∉ t

theorem IsCsv.reload (h : IsCsv c m s) : IsCsv (c ++ [question]) m s where
  cls := by
    have hnul : (0 : UInt8) ≠ question := by decide
    have hcomma : comma ≠ question := by decide
    simp [h.cls, hnul, hcomma]
  method := h.method
  cfg := h.cfg

/-- The plain path invokes the method of the class, with the text behind the second comma. -/
theorem libffiInit_plain (h : IsCsv c m s) (hc : IsClassName c) (hq : c.getLast? ≠ some question)
    (hcls : jvm.parent c = some cls) (hm : cls.getStaticMethodID m = some meth) :
    jvm.libffiInit (csv c m s ++ [0]) tq = some ⟨some ⟨c, m, s, tq⟩, meth.body s tq⟩ := by
  obtain ⟨last, hlast⟩ := Option.ne_none_iff_exists'.mp (mt List.getLast?_eq_none_iff.mp hc.ne_nil)
  have hdyn : last ≠ question := by
    rintro rfl
    exact hq hlast
  have hname : str (c ++ 0 :: (csvRest m s ++ [0])) 0 = c := by
    have key : str ([] ++ (c ++ 0 :: (csvRest m s ++ [0]))) 0 = c := str_append h.cls.1
    exact key
  have hlen : (toSlashes c).length = c.length := List.length_map _
  have hcut : strsep comma (toSlashes c ++ 0 :: (csvRest m s ++ [0])) (some (c.length + 1)) =
      ⟨some (c.length + 1), s.map fun _ => c.length + 1 + m.length + 1,
        cutBuf (toSlashes c) m s⟩ := by
    rw [← hlen]
    exact strsep_csvRest h.method.1 h.method.2 h.cfg
  have hmethod : str (cutBuf (toSlashes c) m s) (c.length + 1) = m := by
    rw [← hlen]
    exact str_cutBuf_func h.method.1
  have hcfg : (s.map fun _ => c.length + 1 + m.length + 1).map (str (cutBuf (toSlashes c) m s)) =
      s := by
    rw [← hlen]
    exact map_str_cutBuf_cfg h.cfg
  simp only [libffiInit, strsep_csv h.cls.1 h.cls.2 h.method.1 h.cfg, hname, hlast,
    Option.bind_eq_bind, Option.bind_some, if_neg hdyn, dotsToSlashes_eq h.cls.1, hcut]
  rw [str_cutBuf_module (zero_notMem_toSlashes h.cls.1), callStatic,
    ofSlashes_toSlashes hc.slash_notMem, hcls]
  simp only [Option.bind_eq_bind, Option.bind_some, hmethod, hm, hcfg]

/-! ## The path through `Loader.init` -/

theorem libffiInit_dyn (h : IsCsv c m s) : jvm.libffiInit (csv (c ++ [question]) m s ++ [0]) tq =
    some (if m = initName then jvm.loaderInit (csv (c ++ [question]) m s) tq
      else ⟨none, some 1⟩) := by
  have h' := h.reload
  have hname : str (c ++ [question] ++ 0 :: (csvRest m s ++ [0])) 0 = c ++ [question] := by
    have key : str ([] ++ (c ++ [question] ++ 0 :: (csvRest m s ++ [0]))) 0 = c ++ [question] :=
      str_append h'.cls.1
    exact key
  have hlast : (c ++ [question]).getLast? = some question := by simp
  simp only [libffiInit, str_csv h'.cls.1 h.method.1 h.cfg,
    strsep_csv h'.cls.1 h'.cls.2 h.method.1 h.cfg, hname, hlast, Option.bind_eq_bind,
    Option.bind_some, if_pos, strsep_csvRest h.method.1 h.method.2 h.cfg,
    str_cutBuf_func h.method.1, Option.pure_def]

theorem head_rdropWhile {a : Bytes} {l : List Bytes} :
    ((a :: l).rdropWhile (· = []))[0]?.getD [] = a := by
  obtain ⟨rest, hrest⟩ := List.rdropWhile_prefix (· = []) (l := a :: l)
  cases hitems : (a :: l).rdropWhile (· = []) with
  | nil =>
    have hempty := (List.rdropWhile_eq_nil_iff.mp hitems) a (by simp)
    simpa using hempty.symm
  | cons b items =>
    rw [hitems, List.cons_append] at hrest
    cases hrest
    rfl

theorem rdropWhile_cons_cons {a b : Bytes} {l : List Bytes} (hb : b ≠ []) :
    (a :: b :: l).rdropWhile (· = []) = a :: b :: l.rdropWhile (· = []) := by
  induction l using List.reverseRecOn with
  | nil =>
    rw [List.rdropWhile_nil]
    exact List.rdropWhile_concat_neg (p := (· = [])) [a] b (by simpa using hb)
  | append_singleton l x ih =>
    rw [List.rdropWhile_concat, ← List.cons_append, ← List.cons_append, List.rdropWhile_concat]
    split_ifs
    · exact ih
    · rfl

/-- What `Loader.init` takes for the configuration. -/
def loaderItem (s : Option Bytes) : Bytes :=
  (s.elim [] fun t => (t.splitOn comma).rdropWhile (· = []))[0]?.getD []

theorem loaderItem_eq_iff {t : Bytes} : loaderItem (some t) = t ↔ comma ∉ t := by
  rw [loaderItem, Option.elim_some]
  constructor
  · intro h hmem
    obtain ⟨a, b, rfl, ha⟩ := List.eq_append_cons_of_mem hmem
    rw [List.splitOn_append_cons_self_of_not_mem ha, head_rdropWhile] at h
    simpa using congrArg List.length h
  · intro h
    rw [List.splitOn_eq_singleton h, head_rdropWhile]

theorem javaSplit_csv (h : IsCsv c m s) (hm : m ≠ []) : javaSplit comma (csv c m s) =
    c :: m :: s.elim [] fun t => (t.splitOn comma).rdropWhile (· = []) := by
  cases s with
  | none =>
    have key : javaSplit comma (c ++ comma :: m) = c.splitOn comma ++ [m] :=
      javaSplit_append h.method.2 hm
    rw [List.splitOn_eq_singleton h.cls.2] at key
    simpa [csv, csvRest] using key
  | some t =>
    rw [javaSplit, if_pos (by simp [csv]), splitOn_csv h.cls.2 h.method.2, rdropWhile_cons_cons hm]
    rfl

open DynamicClassLoader

/-- The class is on the class path: the class loader of the application has it, and one that is made
to load it anew reads the bytes of the same class. -/
structure OnClassPath (jvm : Jvm) (c : Bytes) (cls : JavaClass) : Prop where
  parent : jvm.parent c = some cls
  bytes : ∀ cl, forClass jvm.fs jvm.classpath c = some cl →
    ∃ data, cl.loadNewClass c = some (.bytes data) ∧ jvm.define c data = some cls

theorem IsClassName.javaSplit_ne_nil (hc : IsClassName c) : javaSplit dot c ≠ [] := by
  cases hc with
  | simple _ hdot => simp [javaSplit, hdot]
  | inPackage hC hdot => simp [javaSplit_append hdot hC]

theorem IsClassName.namePrefix_isPrefix {cl : DynamicClassLoader} {fs classpath}
    (hc : IsClassName c) (h : forClass fs classpath c = some cl) : cl.namePrefix <+: c := by
  cases hc with
  | simple hC hdot =>
    obtain ⟨-, -, -, -, hpre⟩ := forClass_eq_some.mp h
    rw [hpre, javaSplit, if_neg hdot]
    exact List.nil_prefix
  | inPackage hC hdot =>
    rw [forClass_namePrefix hC hdot h]
    exact List.prefix_append _ _

theorem load_eq (hc : IsClassName c) (h : jvm.OnClassPath c cls) : jvm.load c =
    if (forClass jvm.fs jvm.classpath c).isSome then .ok cls else .error .exception := by
  rw [load]
  cases hcl : forClass jvm.fs jvm.classpath c with
  | none => rfl
  | some cl =>
    obtain ⟨data, hread, hdefine⟩ := h.bytes cl hcl
    have hown : cl.ownFile c = some (.bytes data) := by
      rw [ownFile_of_own (hc.namePrefix_isPrefix hcl), hread]
    have hans : cl.answer (fun name data => (jvm.define name data).isSome) [] c = .own data := by
      rw [answer_eq, hown]
      simp [hdefine]
    simp [hans, hdefine]

theorem reflect_csv (h : IsCsv c m s) (hm : m ≠ []) :
    jvm.reflect (csv (c ++ [question]) m s) = (do
      let cls ← jvm.load c
      let method ← orThrow (cls.declared m)
      if cls.isPublic && method.isPublic then .ok (c, m, method, loaderItem s)
      else .error .exception) := by
  simp [reflect, javaSplit_csv h.reload hm, loaderItem]

/-- `Loader.init` invokes the method if it finds an accessible one in the class itself. -/
theorem loaderInit_csv (h : IsCsv c m s) (hm : m ≠ []) (hc : IsClassName c)
    (hcls : jvm.OnClassPath c cls) : jvm.loaderInit (csv (c ++ [question]) m s) tq =
      if (forClass jvm.fs jvm.classpath c).isSome then
        match cls.declared m with
        | none => ⟨none, some 1⟩
        | some meth =>
          if cls.isPublic && meth.isPublic then
            ⟨some ⟨c, m, some (loaderItem s), tq⟩,
              some ((meth.body (some (loaderItem s)) tq).getD 1)⟩
          else ⟨none, some 1⟩
      else ⟨none, some 1⟩ := by
  rw [loaderInit, reflect_csv h hm, load_eq hc hcls]
  split_ifs with hcl
  · rw [ok_bind]
    cases cls.declared m with
    | none => rfl
    | some meth =>
      simp only [orThrow_some, ok_bind]
      split_ifs <;> rfl
  · rfl

theorem mapM_isSome_iff {f : α → Option β} {l : List α} :
    (l.mapM f).isSome ↔ ∀ a ∈ l, (f a).isSome := by
  induction l with
  | nil => simp
  | cons a l ih =>
    rw [List.mapM_cons, List.forall_mem_cons, ← ih]
    cases f a <;> cases l.mapM f <;> simp

theorem forClass_isSome_iff (hc : IsClassName c) : (forClass jvm.fs jvm.classpath c).isSome ↔
    ∃ path, jvm.classpath = some path ∧ ∀ e ∈ javaSplit colon path, (jvm.fs e).isSome := by
  rw [Option.isSome_iff_exists]
  constructor
  · rintro ⟨cl, hcl⟩
    obtain ⟨path, hpath, -, hloaders, -⟩ := forClass_eq_some.mp hcl
    exact ⟨path, hpath, mapM_isSome_iff.mp (by rw [hloaders]; rfl)⟩
  · rintro ⟨path, hpath, hopen⟩
    obtain ⟨loaders, hloaders⟩ := Option.isSome_iff_exists.mp (mapM_isSome_iff.mpr hopen)
    exact ⟨⟨loaders, _⟩, forClass_eq_some.mpr ⟨path, hpath, hc.javaSplit_ne_nil, hloaders, rfl⟩⟩

/-! ## The two paths -/

/-- `c?,m,s` and `c,m,s` invoke the same method of the same class with the same arguments, and
return the same code. -/
def Agree (jvm : Jvm) (c m : Bytes) (s : Option Bytes) (tq : UInt64) : Prop :=
  ∃ call rc, jvm.libffiInit (csv (c ++ [question]) m s ++ [0]) tq = some ⟨some call, some rc⟩ ∧
    jvm.libffiInit (csv c m s ++ [0]) tq = some ⟨some call, some rc⟩

/-- What a reload asks for and the plain path does not. -/
structure Reloadable (jvm : Jvm) (cls : JavaClass) (meth : Method) (m : Bytes) (s : Option Bytes)
    (tq : UInt64) : Prop where
  method : m = initName
  cfg : ∃ t, s = some t ∧ comma ∉ t
  paths : ∃ path, jvm.classpath = some path ∧ ∀ e ∈ javaSplit colon path, (jvm.fs e).isSome
  declared : (cls.declared m).isSome
  accessible : cls.isPublic ∧ meth.isPublic
  returns : (meth.body s tq).isSome

theorem JavaClass.getStaticMethodID_of_declared {meth' : Method}
    (hm : cls.getStaticMethodID m = some meth) (hdecl : cls.declared m = some meth') :
    meth' = meth := by
  rw [JavaClass.getStaticMethodID, hdecl] at hm
  exact Option.some.inj hm

theorem initName_ne_nil : initName ≠ [] := by decide

/-- A reload that invokes the method with the given configuration needs all of `Reloadable`. -/
theorem Reloadable.of_dyn {rc : Int} (h : IsCsv c m s) (hc : IsClassName c)
    (hcls : jvm.OnClassPath c cls) (hm : cls.getStaticMethodID m = some meth)
    (hret : meth.body s tq = some rc) (hdyn : jvm.libffiInit (csv (c ++ [question]) m s ++ [0]) tq =
      some ⟨some ⟨c, m, s, tq⟩, some rc⟩) : jvm.Reloadable cls meth m s tq := by
  rw [libffiInit_dyn h, Option.some.injEq] at hdyn
  split_ifs at hdyn with hinit
  · subst hinit
    rw [loaderInit_csv h initName_ne_nil hc hcls] at hdyn
    split_ifs at hdyn with hcl
    · cases hdecl : cls.declared initName with
      | none => simp [hdecl] at hdyn
      | some meth' =>
        cases JavaClass.getStaticMethodID_of_declared hm hdecl
        simp only [hdecl] at hdyn
        split_ifs at hdyn with haccess
        · simp only [InitResult.mk.injEq, Option.some.injEq, Invocation.mk.injEq, true_and,
            and_true] at hdyn
          obtain ⟨hs, -⟩ := hdyn
          exact {
            method := rfl
            cfg := ⟨_, hs.symm, loaderItem_eq_iff.mp (congrArg loaderItem hs)⟩
            paths := (forClass_isSome_iff hc).mp hcl
            declared := by rw [hdecl]; rfl
            accessible := by simpa using haccess
            returns := by rw [hret]; rfl }
        · simp at hdyn
    · simp at hdyn
  · simp at hdyn

/-- A reload agrees with the plain path exactly for an accessible method `init` that the class
itself declares and that returns, a configuration without a comma, and a class path all of whose
entries can be opened as a directory or a jar. -/
theorem agree_iff (h : IsCsv c m s) (hc : IsClassName c) (hq : c.getLast? ≠ some question)
    (hcls : jvm.OnClassPath c cls) (hm : cls.getStaticMethodID m = some meth) :
    jvm.Agree c m s tq ↔ jvm.Reloadable cls meth m s tq := by
  rw [Agree, libffiInit_plain h hc hq hcls.parent hm]
  constructor
  · rintro ⟨call, rc, hdyn, hplain⟩
    simp only [Option.some.injEq, InitResult.mk.injEq] at hplain
    obtain ⟨rfl, hret⟩ := hplain
    exact .of_dyn h hc hcls hm hret hdyn
  · rintro ⟨rfl, ⟨t, rfl, ht⟩, hpaths, hdecl, haccess, hret⟩
    obtain ⟨rc, hrc⟩ := Option.isSome_iff_exists.mp hret
    obtain ⟨meth', hdecl⟩ := Option.isSome_iff_exists.mp hdecl
    cases JavaClass.getStaticMethodID_of_declared hm hdecl
    refine ⟨_, rc, ?_, by rw [hrc]⟩
    rw [libffiInit_dyn h, if_pos rfl, loaderInit_csv h initName_ne_nil hc hcls,
      if_pos ((forClass_isSome_iff hc).mpr hpaths), loaderItem_eq_iff.mpr ht]
    simp [hdecl, haccess, hrc]

/-- A class whose method `init` returns the length of its configuration. -/
def lengthClass : JavaClass where
  isPublic := true
  declared name :=
    if name = initName then some ⟨true, fun cfg _ => some (cfg.elim (-1) (·.length))⟩ else none
  inherited _ := none

/-- A virtual machine with the class `d.A` on its class path. -/
def demoJvm : Jvm where
  fs _ := some (classDir [demoClass])
  classpath := some [dot]
  define name _ := if name = demoClass then some lengthClass else none
  parent name := if name = demoClass then some lengthClass else none

theorem onClassPath_demoClass : demoJvm.OnClassPath demoClass lengthClass where
  parent := rfl
  bytes cl hcl := by
    cases (forClass_classDir [demoClass]).symm.trans hcl
    exact ⟨[202], rfl, rfl⟩

theorem isClassName_demoClass : IsClassName demoClass :=
  show IsClassName ([100] ++ dot :: [65]) from
    .inPackage (by decide) (by decide) (by decide) (by decide)

theorem agree_demoClass : demoJvm.Agree demoClass initName (some [97]) 7 := by
  refine (agree_iff ⟨by decide, by decide, by decide⟩ isClassName_demoClass (by decide)
    onClassPath_demoClass rfl).mpr ?_
  exact {
    method := rfl
    cfg := ⟨[97], rfl, by decide⟩
    paths := ⟨[dot], rfl, by decide⟩
    declared := rfl
    accessible := ⟨rfl, rfl⟩
    returns := rfl }

/-- `a,b` is cut at its comma on one path only. -/
theorem reload_cuts_cfg :
    demoJvm.libffiInit (csv (demoClass ++ [question]) initName (some [97, comma, 98]) ++ [0]) 7 =
      some ⟨some ⟨demoClass, initName, some [97], 7⟩, some 1⟩ ∧
    demoJvm.libffiInit (csv demoClass initName (some [97, comma, 98]) ++ [0]) 7 =
      some ⟨some ⟨demoClass, initName, some [97, comma, 98], 7⟩, some 3⟩ ∧
    ¬ demoJvm.Agree demoClass initName (some [97, comma, 98]) 7 := by
  have hdyn : demoJvm.libffiInit
      (csv (demoClass ++ [question]) initName (some [97, comma, 98]) ++ [0]) 7 =
      some ⟨some ⟨demoClass, initName, some [97], 7⟩, some 1⟩ := by decide
  have hplain : demoJvm.libffiInit (csv demoClass initName (some [97, comma, 98]) ++ [0]) 7 =
      some ⟨some ⟨demoClass, initName, some [97, comma, 98], 7⟩, some 3⟩ := by decide
  refine ⟨hdyn, hplain, ?_⟩
  rintro ⟨call, rc, h₁, h₂⟩
  rw [hdyn] at h₁
  rw [hplain, ← h₁] at h₂
  exact absurd h₂ (by decide)

end Jvm

end RestyFfi
