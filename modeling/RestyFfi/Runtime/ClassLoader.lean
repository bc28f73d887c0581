import Mathlib.Data.List.DropRight
import RestyFfi.Runtime.Csv

/-!
# The class loader of the Java loader

`Loader.init` loads a class to be reloaded through a fresh `DynamicClassLoader`, which reads the
classes of the package anew and leaves all others to its parent. A class is known by its name, a
Java string by its characters. What `defineClass` accepts is a parameter.
-/

namespace RestyFfi

def colon : UInt8 := 58

/-- `String.split` at a character: trailing empty strings are left out, and a string without the
character is its only item. -/
def javaSplit (sep : UInt8) (s : Bytes) : List Bytes :=
  if sep ∈ s then (s.splitOn sep).rdropWhile (· = []) else [s]

theorem javaSplit_append {sep : UInt8} {s t : Bytes} (ht : sep ∉ t) (hne : t ≠ []) :
    javaSplit sep (s ++ sep :: t) = s.splitOn sep ++ [t] := by
  rw [javaSplit, if_pos (by simp), List.splitOn_append_cons_self, List.splitOn_eq_singleton ht,
    List.rdropWhile_concat_neg]
  simpa using hne

def toSlashes (name : Bytes) : Bytes := name.map fun b => if b = dot then slash else b

/-- `name.replaceAll("\\.", "/") + ".class"` -/
def toFilePath (name : Bytes) : Bytes := toSlashes name ++ [46, 99, 108, 97, 115, 115]

/-- What a loader gets from a file that is there. -/
inductive Contents where
  | bytes (data : Bytes)
  /-- An `IOException`, rethrown as a `RuntimeException`: a directory, no permission, a damaged
  entry of a jar. -/
  | unreadable
deriving DecidableEq

/-- The bytes of a class, if they could be read. -/
def Contents.data : Contents → Option Bytes
  | bytes data => some data
  | unreadable => none

/-- A loader is a directory or a jar of the class path: what it holds under a file name, if
anything. -/
structure DynamicClassLoader where
  loaders : List (Bytes → Option Contents)
  namePrefix : Bytes

namespace DynamicClassLoader

/-- The part of `Loader.init` that makes the class loader. `none` is an exception: no `CLASSPATH` in
the environment, a name of dots only, or an entry of the class path that does not exist or cannot be
opened as a jar. -/
def forClass (fs : Bytes → Option (Bytes → Option Contents)) (classpath : Option Bytes)
    (clsName : Bytes) : Option DynamicClassLoader := do
  let classpath ← classpath
  let tmp := javaSplit dot clsName
  if tmp = [] then none
  else
    let loaders ← (javaSplit colon classpath).mapM fs
    return ⟨loaders, [dot].intercalate tmp.dropLast⟩

/-- The first file decides; if it cannot be read, the exception leaves the loop. -/
def loadNewClass (cl : DynamicClassLoader) (name : Bytes) : Option Contents :=
  cl.loaders.findSome? fun loader => loader (toFilePath name)

structure State where
  loadedClasses : List Bytes := []
  unavaiClasses : List Bytes := []
  defined : List (Bytes × Bytes) := []

/-- How a call of `loadClass` is answered: by the class of some bytes, by the error of `defineClass`
on them, by the exception of a file that cannot be read, or by the parent. -/
inductive Answer where
  | own (data : Bytes)
  | threw (data : Bytes)
  | raised
  | parent
deriving DecidableEq

/-- The bytes an answer rests on. -/
def Answer.data : Answer → Option Bytes
  | own data => some data
  | threw data => some data
  | raised => none
  | parent => none

/-- `super.loadClass(name)` -/
def superLoadClass (st : State) (name : Bytes) : Answer :=
  match st.defined.lookup name with
  | some data => .own data
  | none => .parent

variable (cl : DynamicClassLoader) (definable : Bytes → Bytes → Bool)

def loadClass (st : State) (name : Bytes) : Answer × State :=
  if ¬ cl.namePrefix <+: name then (superLoadClass st name, st)
  else if st.loadedClasses.contains name || st.unavaiClasses.contains name then
    (superLoadClass st name, st)
  else
    match cl.loadNewClass name with
    | some .unreadable => (.raised, st)
    | some (.bytes data) =>
      let st := { st with loadedClasses := name :: st.loadedClasses }
      if definable name data then (.own data, { st with defined := (name, data) :: st.defined })
      else (.threw data, st)
    | none => (.parent, { st with unavaiClasses := name :: st.unavaiClasses })

def after (calls : List Bytes) : State :=
  calls.foldl (fun st name => (cl.loadClass definable st name).2) {}

/-- The answer to a call after others. -/
def answer (past : List Bytes) (name : Bytes) : Answer :=
  (cl.loadClass definable (cl.after definable past) name).1

/-! ## The state in terms of the calls -/

/-- The file of a name the class loader takes for one of its own. -/
def ownFile (name : Bytes) : Option Contents :=
  if cl.namePrefix <+: name then cl.loadNewClass name else none

/-- The bytes of a name the class loader takes for one of its own. -/
def ownBytes (name : Bytes) : Option Bytes := (cl.ownFile name).bind Contents.data

/-- The state says which names have been asked for, but for those whose file cannot be read. -/
structure Tracks (past : List Bytes) (st : State) : Prop where
  seen : ∀ n, cl.namePrefix <+: n →
    (n ∈ st.loadedClasses ∨ n ∈ st.unavaiClasses ↔ n ∈ past ∧ cl.ownFile n ≠ some .unreadable)
  keys : ∀ e ∈ st.defined, e.1 ∈ past
  defined : ∀ n, st.defined.lookup n =
    if n ∈ past then (cl.ownBytes n).filter (definable n) else none
  nodup : (st.defined.map Prod.fst).Nodup

variable {cl definable} {past calls : List Bytes} {name : Bytes} {st : State}
variable {fs : Bytes → Option (Bytes → Option Contents)} {classpath : Option Bytes}

theorem ownFile_of_not (h : ¬ cl.namePrefix <+: name) : cl.ownFile name = none := if_neg h

theorem ownFile_of_own (h : cl.namePrefix <+: name) :
    cl.ownFile name = cl.loadNewClass name := if_pos h

theorem ownBytes_of_not (h : ¬ cl.namePrefix <+: name) : cl.ownBytes name = none := by
  rw [ownBytes, ownFile_of_not h, Option.bind_none]

theorem ownBytes_of_unreadable (h : cl.ownFile name = some .unreadable) :
    cl.ownBytes name = none := by
  rw [ownBytes, h]
  rfl

theorem prefix_of_unreadable (h : cl.ownFile name = some .unreadable) : cl.namePrefix <+: name := by
  by_contra hno
  rw [ownFile_of_not hno] at h
  cases h

/-- The calls that change nothing: for the name of another loader, a name asked for before, or a
file that cannot be read. -/
theorem Tracks.skip (h : cl.Tracks definable past st)
    (hname : ¬ cl.namePrefix <+: name ∨ name ∈ past ∨ cl.ownFile name = some .unreadable) :
    cl.Tracks definable (past ++ [name]) st where
  seen n hn := by
    rw [h.seen n hn]
    grind
  keys e he := List.mem_append_left _ (h.keys e he)
  defined n := by
    rw [h.defined n]
    obtain rfl | hne := eq_or_ne n name
    · obtain hno | hmem | hbad := hname
      · simp [ownBytes_of_not hno]
      · simp [hmem]
      · simp [ownBytes_of_unreadable hbad]
    · simp [hne]
  nodup := h.nodup

theorem Tracks.loadClass_skip (h : cl.Tracks definable past st)
    (hname : ¬ cl.namePrefix <+: name ∨ name ∈ past) (hok : cl.ownFile name ≠ some .unreadable) :
    cl.loadClass definable st name = (superLoadClass st name, st) := by
  rw [loadClass]
  obtain hno | hmem := hname
  · rw [if_pos hno]
  · split_ifs with hpre hseen
    · rfl
    · exact absurd (by simpa using (h.seen name hpre).mpr ⟨hmem, hok⟩) hseen
    · rfl

/-- A file that cannot be read raises an exception at every call. -/
theorem Tracks.loadClass_unreadable (h : cl.Tracks definable past st)
    (hbad : cl.ownFile name = some .unreadable) :
    cl.loadClass definable st name = (.raised, st) := by
  have hpre := prefix_of_unreadable hbad
  have hseen : ¬ (st.loadedClasses.contains name || st.unavaiClasses.contains name) = true := by
    rw [Bool.or_eq_true, List.contains_iff_mem, List.contains_iff_mem, h.seen name hpre]
    exact fun hmem => hmem.2 hbad
  rw [loadClass, if_neg (not_not.mpr hpre), if_neg hseen, ← ownFile_of_own hpre, hbad]

theorem Tracks.loadClass_new (h : cl.Tracks definable past st) (hpre : cl.namePrefix <+: name)
    (hnew : name ∉ past) (hok : cl.ownFile name ≠ some .unreadable) :
    cl.loadClass definable st name =
      match cl.ownBytes name with
      | some data =>
        if definable name data then
          (.own data, ⟨name :: st.loadedClasses, st.unavaiClasses, (name, data) :: st.defined⟩)
        else (.threw data, ⟨name :: st.loadedClasses, st.unavaiClasses, st.defined⟩)
      | none => (.parent, ⟨st.loadedClasses, name :: st.unavaiClasses, st.defined⟩) := by
  have hseen : ¬ (st.loadedClasses.contains name || st.unavaiClasses.contains name) = true := by
    rw [Bool.or_eq_true, List.contains_iff_mem, List.contains_iff_mem, h.seen name hpre]
    exact fun hmem => hnew hmem.1
  rw [loadClass, if_neg (not_not.mpr hpre), if_neg hseen, ownBytes, ← ownFile_of_own hpre]
  match hfile : cl.ownFile name with
  | none => rfl
  | some .unreadable => exact absurd hfile hok
  | some (.bytes data) => rfl

/-- A new name joins the names that have been asked for; what is defined for it is what the first
call for it could define. -/
theorem Tracks.extend {loaded unavai : List Bytes} {defined : List (Bytes × Bytes)}
    (h : cl.Tracks definable past st)
    (hseen : ∀ n, n ∈ loaded ∨ n ∈ unavai ↔
      n = name ∨ n ∈ st.loadedClasses ∨ n ∈ st.unavaiClasses)
    (hdef : defined = st.defined ∧ (cl.ownBytes name).filter (definable name) = none ∨
      ∃ data, defined = (name, data) :: st.defined ∧
        (cl.ownBytes name).filter (definable name) = some data) (hnew : name ∉ past)
    (hok : cl.ownFile name ≠ some .unreadable) :
    cl.Tracks definable (past ++ [name]) ⟨loaded, unavai, defined⟩ := by
  have hlookup : st.defined.lookup name = none := by rw [h.defined, if_neg hnew]
  have hkeys : name ∉ st.defined.map Prod.fst := by
    intro hmem
    obtain ⟨e, he, rfl⟩ := List.mem_map.mp hmem
    exact hnew (h.keys e he)
  refine ⟨fun n hn => ?_, ?_, fun n => ?_, ?_⟩
  · rw [hseen, h.seen n hn, List.mem_append, List.mem_singleton]
    obtain rfl | hne := eq_or_ne n name
    · simp [hok]
    · simp [hne]
  · obtain ⟨rfl, -⟩ | ⟨data, rfl, -⟩ := hdef
    · exact fun e he => List.mem_append_left _ (h.keys e he)
    · rintro e (_ | ⟨_, he⟩)
      · simp
      · exact List.mem_append_left _ (h.keys e he)
  · obtain rfl | hne := eq_or_ne n name
    · obtain ⟨rfl, hnone⟩ | ⟨data, rfl, hsome⟩ := hdef
      · simp [hlookup, hnone]
      · simp [hsome]
    · obtain ⟨rfl, -⟩ | ⟨data, rfl, -⟩ := hdef
      · simp [h.defined n, hne]
      · simp [List.lookup_cons, beq_false_of_ne hne, h.defined n, hne]
  · obtain ⟨rfl, -⟩ | ⟨data, rfl, -⟩ := hdef
    · exact h.nodup
    · exact List.nodup_cons.mpr ⟨hkeys, h.nodup⟩

theorem Tracks.loadClass (h : cl.Tracks definable past st) (name : Bytes) :
    cl.Tracks definable (past ++ [name]) (cl.loadClass definable st name).2 := by
  by_cases hok : cl.ownFile name = some .unreadable
  · rw [h.loadClass_unreadable hok]
    exact h.skip (.inr (.inr hok))
  by_cases hname : ¬ cl.namePrefix <+: name ∨ name ∈ past
  · rw [h.loadClass_skip hname hok]
    exact h.skip (hname.imp_right .inl)
  rw [not_or, not_not] at hname
  rw [h.loadClass_new hname.1 hname.2 hok]
  cases hdata : cl.ownBytes name with
  | none =>
    refine h.extend (fun n => ?_) (.inl ⟨rfl, by rw [hdata]; rfl⟩) hname.2 hok
    simp only [List.mem_cons, or_left_comm]
  | some data =>
    have hseen : ∀ n, n ∈ name :: st.loadedClasses ∨ n ∈ st.unavaiClasses ↔
        n = name ∨ n ∈ st.loadedClasses ∨ n ∈ st.unavaiClasses := by
      simp only [List.mem_cons, or_assoc, implies_true]
    dsimp only
    split_ifs with hdef
    · exact h.extend hseen (.inr ⟨data, rfl, by simp [hdata, hdef]⟩) hname.2 hok
    · exact h.extend hseen (.inl ⟨rfl, by simp [hdata, hdef]⟩) hname.2 hok

theorem tracks_after : cl.Tracks definable calls (cl.after definable calls) := by
  induction calls using List.reverseRecOn with
  | nil => constructor <;> simp [after]
  | append_singleton calls name ih =>
    rw [after, List.foldl_concat]
    exact ih.loadClass name

/-- What a call is answered, from the calls before it: a class that could not be defined is left to
the parent when it is asked for again. -/
theorem answer_eq : cl.answer definable past name =
    match cl.ownFile name with
    | none => .parent
    | some .unreadable => .raised
    | some (.bytes data) =>
      if definable name data then .own data else if name ∈ past then .parent else .threw data := by
  have h : cl.Tracks definable past (cl.after definable past) := tracks_after
  rw [answer]
  by_cases hbad : cl.ownFile name = some .unreadable
  · rw [h.loadClass_unreadable hbad, hbad]
  by_cases hname : ¬ cl.namePrefix <+: name ∨ name ∈ past
  · rw [h.loadClass_skip hname hbad]
    simp only [superLoadClass, h.defined name, ownBytes]
    match hfile : cl.ownFile name with
    | none => simp
    | some .unreadable => exact absurd hfile hbad
    | some (.bytes data) =>
      have hmem : name ∈ past := by
        refine hname.resolve_left fun hno => ?_
        rw [ownFile_of_not hno] at hfile
        cases hfile
      cases hok : definable name data <;> simp [hmem, hok, Option.filter, Contents.data]
  rw [not_or, not_not] at hname
  rw [h.loadClass_new hname.1 hname.2 hbad, ownBytes]
  match hfile : cl.ownFile name with
  | none => rfl
  | some .unreadable => exact absurd hfile hbad
  | some (.bytes data) =>
    simp only [Option.bind_some, Contents.data]
    split_ifs with hok hmem
    · rfl
    · exact absurd hmem hname.2
    · rfl

/-! ## The scope of a reload -/

/-- `name` belongs to the package or to one of its sub-packages. -/
def InPackage (pkg name : Bytes) : Prop := pkg ++ [dot] <+: name

/-- The first path that has bytes for `name` has these. -/
def FirstBytes (cl : DynamicClassLoader) (name data : Bytes) : Prop :=
  ∃ before loader behind, cl.loaders = before ++ loader :: behind ∧
    loader (toFilePath name) = some (.bytes data) ∧
      ∀ l ∈ before, ∀ d, l (toFilePath name) ≠ some (.bytes d)

/-- One of the paths has bytes for `name`. -/
def HasBytes (cl : DynamicClassLoader) (name : Bytes) : Prop :=
  ∃ loader ∈ cl.loaders, ∃ data, loader (toFilePath name) = some (.bytes data)

/-- The first path that has a file for `name` cannot read it. -/
def Unreadable (cl : DynamicClassLoader) (name : Bytes) : Prop :=
  ∃ before loader behind, cl.loaders = before ++ loader :: behind ∧
    loader (toFilePath name) = some .unreadable ∧ ∀ l ∈ before, l (toFilePath name) = none

/-- A call is answered from bytes if it is for a name of the package that a path has bytes for. The
first such path decides; any other call is left to the parent. -/
structure ScopedCall (cl : DynamicClassLoader) (pkg name : Bytes) (answer : Answer) : Prop where
  own : answer.data.isSome ↔ InPackage pkg name ∧ cl.HasBytes name
  first : ∀ data, answer.data = some data → cl.FirstBytes name data
  parent : ¬ (InPackage pkg name ∧ cl.HasBytes name) → answer = .parent

/-- Every call is answered within the scope of the package, and no class is defined twice. -/
structure Scoped (cl : DynamicClassLoader) (definable : Bytes → Bytes → Bool) (pkg : Bytes)
    (calls : List Bytes) : Prop where
  call : ∀ past name, past ++ [name] <+: calls →
    cl.ScopedCall pkg name (cl.answer definable past name)
  once : ((cl.after definable calls).defined.map Prod.fst).Nodup

theorem Contents.bind_data_eq_some {o : Option Contents} {data : Bytes} :
    o.bind Contents.data = some data ↔ o = some (.bytes data) := by
  match o with
  | none | some .unreadable => simp [Contents.data]
  | some (.bytes d) => simp [Contents.data]

theorem firstBytes_iff {data : Bytes} : cl.FirstBytes name data ↔
    (cl.loaders.findSome? fun loader => (loader (toFilePath name)).bind Contents.data) =
      some data := by
  simp only [List.findSome?_eq_some_iff, Option.eq_none_iff_forall_ne_some, ne_eq,
    Contents.bind_data_eq_some]
  rfl

theorem hasBytes_iff : cl.HasBytes name ↔
    (cl.loaders.findSome? fun loader => (loader (toFilePath name)).bind Contents.data).isSome := by
  simp only [List.isSome_findSome?, List.any_eq_true, Option.isSome_iff_exists,
    Contents.bind_data_eq_some]
  rfl

theorem unreadable_iff : cl.Unreadable name ↔ cl.loadNewClass name = some .unreadable := by
  rw [loadNewClass, List.findSome?_eq_some_iff]
  rfl

theorem FirstBytes.hasBytes {data : Bytes} (h : cl.FirstBytes name data) : cl.HasBytes name := by
  rw [hasBytes_iff, firstBytes_iff.mp h]
  rfl

theorem HasBytes.exists_firstBytes (h : cl.HasBytes name) : ∃ data, cl.FirstBytes name data := by
  obtain ⟨data, hdata⟩ := Option.isSome_iff_exists.mp (hasBytes_iff.mp h)
  exact ⟨data, firstBytes_iff.mpr hdata⟩

theorem firstBytes_of_loadNewClass {data : Bytes} (h : cl.loadNewClass name = some (.bytes data)) :
    cl.FirstBytes name data := by
  obtain ⟨before, loader, behind, hl, hdata, hnone⟩ := List.findSome?_eq_some_iff.mp h
  exact ⟨before, loader, behind, hl, hdata, fun l hmem d hd => by simp [hnone l hmem] at hd⟩

/-- The bytes of the first path that has bytes are read if no file stands before them. -/
theorem FirstBytes.loadNewClass {data : Bytes} (h : cl.FirstBytes name data)
    (hr : ¬ cl.Unreadable name) : cl.loadNewClass name = some (.bytes data) := by
  have hfirst := firstBytes_iff.mp h
  obtain ⟨before, loader, behind, hl, hdata, -⟩ := h
  have hsome : (cl.loadNewClass name).isSome := by
    rw [DynamicClassLoader.loadNewClass, List.isSome_findSome?, List.any_eq_true]
    exact ⟨loader, by rw [hl]; simp, by rw [hdata]; rfl⟩
  match hfile : cl.loadNewClass name with
  | none => simp [hfile] at hsome
  | some .unreadable => exact absurd (unreadable_iff.mpr hfile) hr
  | some (.bytes d) =>
    have hd := firstBytes_iff.mp (firstBytes_of_loadNewClass hfile)
    rw [hfirst] at hd
    rw [Option.some.inj hd]

theorem ownFile_eq_unreadable : cl.ownFile name = some .unreadable ↔
    cl.namePrefix <+: name ∧ cl.Unreadable name := by
  rw [unreadable_iff, ownFile, Option.ite_none_right_eq_some]

theorem ownFile_eq_bytes {data : Bytes} : cl.ownFile name = some (.bytes data) ↔
    cl.namePrefix <+: name ∧ ¬ cl.Unreadable name ∧ cl.FirstBytes name data := by
  rw [ownFile, Option.ite_none_right_eq_some]
  refine and_congr_right fun _ => ⟨fun h => ⟨?_, firstBytes_of_loadNewClass h⟩, fun h =>
    h.2.loadNewClass h.1⟩
  rw [unreadable_iff, h]
  simp

theorem InPackage.isPrefix {pkg : Bytes} (h : InPackage pkg name) : pkg <+: name :=
  (List.prefix_append pkg [dot]).trans h

/-- A class is the class loader's own unless it could not be defined when it was first asked for. -/
theorem answer_of_bytes {data : Bytes} (hdata : cl.ownFile name = some (.bytes data)) :
    (definable name data ∨ name ∉ past) ∧ (cl.answer definable past name).data = some data ∨
      ¬ (definable name data ∨ name ∉ past) ∧ cl.answer definable past name = .parent := by
  rw [answer_eq, hdata]
  dsimp only
  split_ifs <;> simp_all [Answer.data]

/-- A call for a name with bytes stays in scope if the name is of the package exactly when the class
is the class loader's own; a call that meets a file that cannot be read never does. -/
theorem scopedCall_iff : cl.ScopedCall cl.namePrefix name (cl.answer definable past name) ↔
    cl.ownFile name ≠ some .unreadable ∧ ∀ data, cl.ownFile name = some (.bytes data) →
      (InPackage cl.namePrefix name ↔ definable name data ∨ name ∉ past) := by
  match hfile : cl.ownFile name with
  | none =>
    have hno : ¬ (InPackage cl.namePrefix name ∧ cl.HasBytes name) := by
      rintro ⟨hin, hbytes⟩
      obtain ⟨data, hfirst⟩ := hbytes.exists_firstBytes
      have hr : ¬ cl.Unreadable name := fun hbad => by
        rw [ownFile_eq_unreadable.mpr ⟨hin.isPrefix, hbad⟩] at hfile
        cases hfile
      rw [ownFile_eq_bytes.mpr ⟨hin.isPrefix, hr, hfirst⟩] at hfile
      cases hfile
    have hans : cl.answer definable past name = .parent := by rw [answer_eq, hfile]
    rw [hans]
    exact ⟨by simp, fun _ => ⟨by simpa [Answer.data] using hno, by simp [Answer.data],
      fun _ => rfl⟩⟩
  | some .unreadable =>
    have hans : cl.answer definable past name = .raised := by rw [answer_eq, hfile]
    refine ⟨fun h => ?_, fun h => absurd rfl h.1⟩
    rw [hans] at h
    by_cases hin : InPackage cl.namePrefix name ∧ cl.HasBytes name
    · exact absurd (h.own.mpr hin) (by simp [Answer.data])
    · exact nomatch h.parent hin
  | some (.bytes data) =>
    obtain ⟨-, -, hfirst⟩ := ownFile_eq_bytes.mp hfile
    have hbytes : cl.HasBytes name := hfirst.hasBytes
    have hcases : (definable name data ∨ name ∉ past) ∧
        (cl.answer definable past name).data = some data ∨ _ := answer_of_bytes hfile
    obtain ⟨hown, hans⟩ | ⟨hown, hans⟩ := hcases
    · constructor
      · intro h
        refine ⟨by simp, fun d hd => ?_⟩
        cases hd
        exact iff_of_true (h.own.mp (by rw [hans]; rfl)).1 hown
      · rintro ⟨-, h⟩
        have hin := (h data rfl).mpr hown
        refine ⟨iff_of_true (by rw [hans]; rfl) ⟨hin, hbytes⟩, fun d hd => ?_, fun hno =>
          absurd ⟨hin, hbytes⟩ hno⟩
        rw [hans] at hd
        cases hd
        exact hfirst
    · rw [hans]
      constructor
      · intro h
        refine ⟨by simp, fun d hd => ?_⟩
        cases hd
        exact iff_of_false
          (fun hin => absurd (h.own.mpr ⟨hin, hbytes⟩) (by simp [Answer.data])) hown
      · rintro ⟨-, h⟩
        have hin : ¬ InPackage cl.namePrefix name := fun hin => hown ((h data rfl).mp hin)
        exact ⟨by simp [Answer.data, hin], by simp [Answer.data], fun _ => rfl⟩

theorem exists_again (h : ¬ calls.count name ≤ 1) :
    ∃ past, past ++ [name] <+: calls ∧ name ∈ past := by
  have hmem : name ∈ calls := List.count_pos_iff.mp (by omega)
  obtain ⟨as, bs, rfl, hnot⟩ := List.eq_append_cons_of_mem hmem
  rw [List.count_append, List.count_cons_self, List.count_eq_zero.mpr hnot] at h
  have hmem' : name ∈ bs := List.count_pos_iff.mp (by omega)
  obtain ⟨cs, ds, rfl⟩ := List.append_of_mem hmem'
  exact ⟨as ++ name :: cs, ⟨ds, by simp⟩, by simp⟩

theorem scoped_namePrefix_iff : cl.Scoped definable cl.namePrefix calls ↔
    (∀ name ∈ calls, cl.namePrefix <+: name →
      ¬ cl.Unreadable name ∧ (cl.HasBytes name → InPackage cl.namePrefix name)) ∧
    ∀ name data, InPackage cl.namePrefix name → cl.FirstBytes name data →
      definable name data = false → calls.count name ≤ 1 := by
  have readable : ∀ {name}, cl.namePrefix <+: name → cl.ownFile name ≠ some .unreadable →
      ¬ cl.Unreadable name :=
    fun hpre hok hbad => hok (ownFile_eq_unreadable.mpr ⟨hpre, hbad⟩)
  constructor
  · intro h
    constructor
    · intro name hmem hpre
      obtain ⟨past, rest, rfl, hnot⟩ := List.eq_append_cons_of_mem hmem
      obtain ⟨hok, hcall⟩ := scopedCall_iff.mp (h.call past name ⟨rest, by simp⟩)
      refine ⟨readable hpre hok, fun hbytes => ?_⟩
      obtain ⟨data, hfirst⟩ := hbytes.exists_firstBytes
      exact (hcall data (ownFile_eq_bytes.mpr ⟨hpre, readable hpre hok, hfirst⟩)).mpr (.inr hnot)
    · intro name data hin hfirst hbad
      by_contra hcount
      obtain ⟨past, hpast, hmem⟩ := exists_again hcount
      obtain ⟨hok, hcall⟩ := scopedCall_iff.mp (h.call past name hpast)
      have hfile := ownFile_eq_bytes.mpr ⟨hin.isPrefix, readable hin.isPrefix hok, hfirst⟩
      have hown := (hcall data hfile).mp hin
      simp [hbad, hmem] at hown
  · rintro ⟨hscope, hagain⟩
    refine ⟨fun past name hpast => scopedCall_iff.mpr ⟨fun hbad => ?_, fun data hdata => ?_⟩,
      tracks_after.nodup⟩
    · obtain ⟨hpre, hbad⟩ := ownFile_eq_unreadable.mp hbad
      exact (hscope name (hpast.subset (by simp)) hpre).1 hbad
    · obtain ⟨hpre, -, hfirst⟩ := ownFile_eq_bytes.mp hdata
      have hin := (hscope name (hpast.subset (by simp)) hpre).2 hfirst.hasBytes
      refine iff_of_true hin ?_
      by_contra hno
      rw [not_or, not_not, Bool.not_eq_true] at hno
      have hcount := hagain name data hin hfirst hno.1
      have hle := hpast.sublist.count_le name
      rw [List.count_append, List.count_singleton_self] at hle
      have hpos : 0 < past.count name := List.count_pos_iff.mpr hno.2
      omega

theorem forClass_eq_some : forClass fs classpath name = some cl ↔
    ∃ path, classpath = some path ∧ javaSplit dot name ≠ [] ∧
      (javaSplit colon path).mapM fs = some cl.loaders ∧
      cl.namePrefix = [dot].intercalate (javaSplit dot name).dropLast := by
  cases classpath with
  | none => simp [forClass]
  | some path =>
    obtain ⟨loaders, p⟩ := cl
    simp only [forClass, Option.bind_eq_bind, Option.bind_some, Option.pure_def,
      Option.ite_none_left_eq_some, Option.bind_eq_some_iff, Option.some.injEq, mk.injEq]
    constructor
    · rintro ⟨hne, _, hloaders, rfl, rfl⟩
      exact ⟨path, rfl, hne, hloaders, rfl⟩
    · rintro ⟨_, rfl, hne, hloaders, rfl⟩
      exact ⟨hne, loaders, hloaders, rfl, rfl⟩

theorem forClass_namePrefix {pkg C : Bytes} (hC : C ≠ []) (hdot : dot ∉ C)
    (h : forClass fs classpath (pkg ++ dot :: C) = some cl) : cl.namePrefix = pkg := by
  obtain ⟨-, -, -, -, hpre⟩ := forClass_eq_some.mp h
  rw [hpre, javaSplit_append hdot hC, List.dropLast_concat, List.intercalate_splitOn]

/-- A reload of `pkg.C` stays within the package, and is consistent, exactly when no name that
starts like the package meets a file that cannot be read or has bytes outside the package, and no
class that cannot be defined is asked for twice. -/
theorem scoped_iff {pkg C : Bytes} (hC : C ≠ []) (hdot : dot ∉ C)
    (h : forClass fs classpath (pkg ++ dot :: C) = some cl) :
    cl.Scoped definable pkg calls ↔
      (∀ name ∈ calls, pkg <+: name →
        ¬ cl.Unreadable name ∧ (cl.HasBytes name → InPackage pkg name)) ∧
      ∀ name data, InPackage pkg name → cl.FirstBytes name data →
        definable name data = false → calls.count name ≤ 1 := by
  have hpre := forClass_namePrefix hC hdot h
  subst hpre
  exact scoped_namePrefix_iff

def classDir (names : List Bytes) : Bytes → Option Contents := fun path =>
  if (names.map toFilePath).contains path then some (.bytes [202]) else none

/-- `d.A` -/
def demoClass : Bytes := [100, dot, 65]

/-- `d2.B` -/
def siblingClass : Bytes := [100, 50, dot, 66]

theorem hasBytes_classDir {p : Bytes} {names : List Bytes} :
    (⟨[classDir names], p⟩ : DynamicClassLoader).HasBytes name ↔
      toFilePath name ∈ names.map toFilePath := by
  simp [HasBytes, classDir]

theorem not_unreadable_classDir {p : Bytes} {names : List Bytes} :
    ¬ (⟨[classDir names], p⟩ : DynamicClassLoader).Unreadable name := by
  rw [unreadable_iff]
  simp [loadNewClass, classDir]

theorem forClass_classDir (names : List Bytes) :
    forClass (fun _ => some (classDir names)) (some [dot]) demoClass =
      some ⟨[classDir names], [100]⟩ := rfl

/-- The class and that of another package, each asked for twice. -/
theorem scoped_demoClass :
    (⟨[classDir [demoClass]], [100]⟩ : DynamicClassLoader).Scoped (fun _ _ => true) [100]
      [demoClass, siblingClass, demoClass, siblingClass] := by
  have hpath : ∀ name ∈ [demoClass, siblingClass, demoClass, siblingClass],
      toFilePath name ∈ [demoClass].map toFilePath → [100] ++ [dot] <+: name := by decide
  have hC : ([65] : Bytes) ≠ [] := by decide
  have hdot : dot ∉ ([65] : Bytes) := by decide
  refine (scoped_iff hC hdot (forClass_classDir _)).mpr
    ⟨fun name hmem _ => ⟨not_unreadable_classDir, fun hbytes => ?_⟩, ?_⟩
  · exact hpath name hmem (hasBytes_classDir.mp hbytes)
  · rintro name data - - ⟨⟩

/-- A class path whose first entry has directories in the place of class files. -/
def brokenPath (names : List Bytes) (entry : Bytes) : Option (Bytes → Option Contents) :=
  some fun path =>
    if entry = [49] ∧ (names.map toFilePath).contains path then some .unreadable
    else classDir names path

/-- A class of a package whose name only starts like that of the target is read anew, a class that
could not be defined is answered by the parent the next time, and a file that cannot be read hides
the class of a later path. -/
theorem reload_out_of_scope :
    (∃ cl, forClass (fun _ => some (classDir [demoClass, siblingClass])) (some [dot]) demoClass =
      some cl ∧ ¬ cl.Scoped (fun _ _ => true) [100] [demoClass, siblingClass]) ∧
    (∃ cl, forClass (fun _ => some (classDir [demoClass])) (some [dot]) demoClass = some cl ∧
      ¬ cl.Scoped (fun _ _ => false) [100] [demoClass, demoClass]) ∧
    ∃ cl, forClass (brokenPath [demoClass]) (some [49, colon, 50]) demoClass = some cl ∧
      ¬ cl.Scoped (fun _ _ => true) [100] [demoClass] := by
  refine ⟨⟨_, forClass_classDir _, fun h => ?_⟩, ⟨_, forClass_classDir _, fun h => ?_⟩,
    ⟨_, rfl, fun h => ?_⟩⟩
  · have hin := ((scoped_namePrefix_iff.mp h).1 siblingClass (by simp) (by decide)).2
      (hasBytes_classDir.mpr (by decide))
    exact absurd hin (by unfold InPackage; decide)
  · have hbytes : (⟨[classDir [demoClass]], [100]⟩ : DynamicClassLoader).HasBytes demoClass :=
      hasBytes_classDir.mpr (by decide)
    obtain ⟨data, hfirst⟩ := hbytes.exists_firstBytes
    have hcount := (scoped_namePrefix_iff.mp h).2 demoClass data (by unfold InPackage; decide)
      hfirst rfl
    exact absurd hcount (by decide)
  · have hread := ((scoped_namePrefix_iff.mp h).1 demoClass (by simp) (by decide)).1
    exact hread (unreadable_iff.mpr (by decide))

end DynamicClassLoader

end RestyFfi
