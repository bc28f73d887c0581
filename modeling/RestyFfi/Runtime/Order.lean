import RestyFfi.Runtime.Serving

/-!
# The order of the results

A queue is a FIFO, a lane is answered in order, and the done list is handled in order. So if one
thread polls a queue, its tasks reach the event handler in the order of their posts, lane by lane
(`Runs.inOrder`), and all of them if the program has one lane.
-/

namespace RestyFfi
open Transition Lanes

/-- The task of an accepted post at the queue `q`, and its lane. -/
def ServeEvent.laned (P : Program κ) (q : Nat) : ServeEvent Th Lib Co κ → Option (Nat × κ)
  | .nginx (.post _ q' _ i req _ .ok) =>
    if q' = q then some (i, P.lane i (reqBuffer req, reqLength req)) else none
  | _ => none

namespace Serving
variable {Th Lib Co κ : Type} [DecidableEq Th] [DecidableEq Co] [DecidableEq κ]
  {prog : Nat → Program κ} {resolve : LuaString → Lib} {s : Serving Th Lib Co κ}
  {ls : List (ServeEvent Th Lib Co κ)} {q q' : Nat} {th : Th} {k : κ} {x : Taken κ} {i : Nat}

/-- The accepted posts at `q` with their lanes. -/
def laned (prog : Nat → Program κ) (q : Nat) (ls : List (ServeEvent Th Lib Co κ)) :
    List (Nat × κ) := ls.filterMap (ServeEvent.laned (prog q) q)

/-- The requests accepted at `q` that belong to the lane `k`, in the order of their posts. -/
def postedIn (prog : Nat → Program κ) (q : Nat) (k : κ) (ls : List (ServeEvent Th Lib Co κ)) :
    List Nat := ((laned prog q ls).filter (·.2 = k)).map (·.1)

/-- The tasks that the event handler has been called for, in order. -/
def handled (ls : List (ServeEvent Th Lib Co κ)) : List Nat :=
  (ls.map ServeEvent.toWorker).filterMap WorkerEvent.handled

/-- The tasks that have been responded to. -/
def responded (ls : List (ServeEvent Th Lib Co κ)) : List Nat :=
  (ls.map ServeEvent.toWorker).filterMap WorkerEvent.responded

omit [DecidableEq Th] [DecidableEq Co] [DecidableEq κ] in
theorem map_laned (prog : Nat → Program κ) (q : Nat) (ls : List (ServeEvent Th Lib Co κ)) :
    (laned prog q ls).map Prod.fst = posted q ls := by
  rw [laned, posted, List.map_filterMap, List.filterMap_map]
  refine List.filterMap_congr fun l _ => ?_
  cases l with
  | nginx e =>
    cases e with
    | post c q' env i req j rc =>
      cases rc with
      | ok => by_cases hq : q' = q <;>
          simp [ServeEvent.laned, ServeEvent.toWorker, WorkerEvent.acceptedAt, hq]
      | error => rfl
    | _ => rfl
  | _ => rfl

omit [DecidableEq Th] [DecidableEq Co] [DecidableEq κ] in
theorem mem_laned_iff : (i, k) ∈ laned prog q ls ↔ ∃ c env req j,
    .nginx (.post c q env i req j .ok) ∈ ls ∧
      (prog q).lane i (reqBuffer req, reqLength req) = k := by
  refine List.mem_filterMap.trans ⟨fun ⟨l, hl, hk⟩ => ?_, fun ⟨c, env, req, j, hl, hk⟩ =>
    ⟨_, hl, by simp [ServeEvent.laned, hk]⟩⟩
  cases l with
  | nginx e =>
    cases e with
    | post c q' env i' req j rc =>
      cases rc with
      | ok =>
        simp only [ServeEvent.laned] at hk
        split at hk
        · rename_i hq
          cases hk
          exact ⟨c, env, req, j, hq ▸ hl, rfl⟩
        · cases hk
      | error => cases hk
    | _ => cases hk
  | _ => cases hk

omit [DecidableEq κ] in
/-- What a thread has taken tells the queue and the lane of the post. -/
theorem Runs.mem_laned_iff (H : Runs prog resolve ls s) (hx : x ∈ takenBy (q', th) ls) :
    (x.stamp, k) ∈ laned prog q ls ↔ q' = q ∧ x.lane = k := by
  obtain ⟨c, env, req, j, hp, hlane⟩ := H.take_lane (mem_takenBy.mp hx)
  rw [Serving.mem_laned_iff]
  constructor
  · rintro ⟨c', env', req', j', hp', hk⟩
    have heq := H.worker.post_inj (mem_toWorker hp) (mem_toWorker hp')
    cases heq
    exact ⟨rfl, hlane.trans hk⟩
  · rintro ⟨rfl, rfl⟩
    exact ⟨c, env, req, j, hp, hlane.symm⟩

omit [DecidableEq κ] in
theorem Runs.taken_prefix (H : Runs prog resolve ls s) (hone : PolledBy q th ls) :
    (takenBy (q, th) ls).map (fun x => (x.stamp, x.lane)) <+: laned prog q ls := by
  refine prefix_of_map (f := Prod.fst) ?_ ?_ ?_
  · rw [map_laned]
    exact H.worker.posted_nodup q
  · intro y hy
    obtain ⟨x, hx, rfl⟩ := List.mem_map.mp hy
    exact (H.mem_laned_iff hx).mpr ⟨rfl, rfl⟩
  · have hfst : Prod.fst ∘ (fun x : Taken κ => (x.stamp, x.lane)) = Taken.stamp := rfl
    rw [List.map_map, hfst, ← hone.handedOut_eq, map_laned, H.posted_eq]
    exact List.prefix_append ..

/-- What is answered of a lane, among all that is answered in the worker. -/
theorem Runs.responded_filter (H : Runs prog resolve ls s) (hone : PolledBy q th ls) :
    (responded ls).filter (postedIn prog q k ls).contains =
      ((answeredBy (q, th) ls).filter (·.lane = k)).map Taken.stamp := by
  have hmem : ∀ {q' th' x}, x ∈ takenBy (q', th') ls →
      (x.stamp ∈ postedIn prog q k ls ↔ (q', th') = (q, th) ∧ x.lane = k) := by
    intro q' th' x hx
    have hpost : x.stamp ∈ postedIn prog q k ls ↔ (x.stamp, k) ∈ laned prog q ls := by
      simp [postedIn]
    rw [hpost, H.mem_laned_iff hx, Prod.mk.injEq, and_assoc]
    refine and_congr_right fun hq => (and_iff_right ?_).symm
    subst hq
    exact hone _ _ (mem_takenBy.mp hx)
  rw [responded, answeredBy, List.filterMap_map, List.filter_filterMap, List.filter_filterMap,
    List.map_filterMap]
  refine List.filterMap_congr fun l hl => ?_
  cases l with
  | nginx e =>
    simp [ServeEvent.toWorker, WorkerEvent.responded_of_nginx (H.byRuntime_eq hl),
      ServeEvent.answeredBy]
  | respond q' th' x r j =>
    have hx : x ∈ takenBy (q', th') ls := by
      refine (H.inLanes (q', th')).finished_subset (List.mem_filterMap.mpr ⟨_, hl, ?_⟩)
      simp [ServeEvent.answeredBy]
    have hiff := hmem hx
    by_cases hp : (q', th') = (q, th)
    · rw [and_iff_right hp] at hiff
      cases hp
      by_cases hk : x.lane = k <;>
        simp [ServeEvent.toWorker, WorkerEvent.reply, WorkerEvent.responded, ServeEvent.answeredBy,
          Option.filter, hiff, hk]
    · have hno : x.stamp ∉ postedIn prog q k ls := fun h => hp (hiff.mp h).1
      simp [ServeEvent.toWorker, WorkerEvent.reply, WorkerEvent.responded, ServeEvent.answeredBy,
        Option.filter, hno, hp]
  | _ => rfl

/-- The tasks of a lane reach the event handler in the order of their posts. -/
theorem Runs.handled_postedIn (H : Runs prog resolve ls s) (hone : PolledBy q th ls) (k : κ) :
    (handled ls).filter (postedIn prog q k ls).contains <+: postedIn prog q k ls := by
  have hhandled : handled ls <+: responded ls := ⟨_, H.worker.handled_append_answered⟩
  have hanswered : (answeredBy (q, th) ls).filter (·.lane = k) <+:
      (takenBy (q, th) ls).filter (·.lane = k) := ⟨_, (H.inLanes (q, th) k).symm⟩
  have htaken : ((takenBy (q, th) ls).filter (·.lane = k)).map Taken.stamp <+:
      postedIn prog q k ls := by
    have h := ((H.taken_prefix hone).filter (·.2 = k)).map (·.1)
    rwa [List.filter_map, List.map_map] at h
  have hfilter := hhandled.filter (postedIn prog q k ls).contains
  rw [H.responded_filter hone] at hfilter
  exact hfilter.trans ((hanswered.map _).trans htaken)

/-- The results of the requests at the queue `q` are in order. -/
structure InOrder (prog : Nat → Program κ) (q : Nat) (ls : List (ServeEvent Th Lib Co κ)) :
    Prop where
  /-- Lane by lane. -/
  lane : ∀ k, (handled ls).filter (postedIn prog q k ls).contains <+: postedIn prog q k ls
  /-- With one lane, all of them. -/
  all : (∀ i r i' r', (prog q).lane i r = (prog q).lane i' r') →
    (handled ls).filter (posted q ls).contains <+: posted q ls

/-- **In order.** If one thread polls a queue, its tasks reach the event handler in the order of
their posts as far as they are in one lane. The calls of the mutex and of the condition succeed. -/
theorem Runs.inOrder (H : Runs prog resolve ls s) (hone : PolledBy q th ls) :
    InOrder prog q ls where
  lane k := H.handled_postedIn hone k
  all hlane := by
    have hall : (laned prog q ls).filter (·.2 = (prog q).lane 0 (none, 0)) = laned prog q ls := by
      rw [List.filter_eq_self]
      rintro ⟨i, k⟩ hi
      obtain ⟨c, env, req, j, _, rfl⟩ := Serving.mem_laned_iff.mp hi
      exact decide_eq_true (hlane ..)
    have hposted : postedIn prog q ((prog q).lane 0 (none, 0)) ls = posted q ls := by
      rw [postedIn, hall]
      exact map_laned prog q ls
    rw [← hposted]
    exact H.handled_postedIn hone _

/-- Two coroutines post to `echo.go`, which answers both before the event loop drains. -/
def twoRun : List (ServeEvent Unit LuaString Bool Nat) :=
  [.nginx (.sys (.load .ok (ascii "echo") none none (.loaded 0 (ascii "echo")) 0)),
    .nginx (.spawn true), .nginx (.spawn false),
    .nginx (.post true 0 {} 0 (some [104]) 0 .ok), .nginx (.post false 0 {} 1 (some [105]) 1 .ok),
    .poll 0 (.enter ()), .take 0 () ⟨0, 0, 0⟩, .respond 0 () ⟨0, 0, 0⟩ ⟨0, some [104], 1⟩ 2,
    .poll 0 (.enter ()), .take 0 () ⟨1, 1, 0⟩, .respond 0 () ⟨1, 1, 0⟩ ⟨0, some [105], 1⟩ 3,
    .nginx .drain, .nginx (.handle 0 {} (.resumed true (answer 0 (some [104]) 1))),
    .nginx (.handle 1 {} (.resumed false (answer 0 (some [105]) 1)))]

theorem twoRun_runs :
    ∃ s : Serving Unit LuaString Bool Nat, Runs (fun _ => goProgram) id twoRun s := by
  have H₁ := Run.nil.snoc (@Step.nginx Unit LuaString Bool Nat _ _ (fun _ => goProgram) id init _ _
    (@Worker.Step.sys Unit LuaString Bool _ _ id _ _ _
      (@System.Step.load Unit LuaString Nat _ id _ .ok (ascii "echo") none none
        _ _ rfl) rfl) rfl)
  have H₂ := H₁.snoc (@Step.nginx Unit LuaString Bool Nat _ _ (fun _ => goProgram) id _ _ _
    (@Worker.Step.spawn Unit LuaString Bool _ _ id _ true rfl) rfl)
  have H₃ := H₂.snoc (@Step.nginx Unit LuaString Bool Nat _ _ (fun _ => goProgram) id _ _ _
    (@Worker.Step.spawn Unit LuaString Bool _ _ id _ false rfl) rfl)
  have H₄ := H₃.snoc (@Step.nginx Unit LuaString Bool Nat _ _ (fun _ => goProgram) id _ _ _
    (@Worker.Step.post Unit LuaString Bool _ _ id _ true 0 none _ 0 (some [104]) _ _ 0 _ _ ∅ {}
      .ok _ rfl rfl (@Worker.NewBuffer.block _ 0 _ rfl) rfl rfl rfl
      (wakes_empty fun _ h => Pc.noConfusion h) rfl) rfl)
  have H₅ := H₄.snoc (@Step.nginx Unit LuaString Bool Nat _ _ (fun _ => goProgram) id _ _ _
    (@Worker.Step.post Unit LuaString Bool _ _ id _ false 0 none _ 0 (some [105]) _ _ 1 _ _ ∅ {}
      .ok _ rfl rfl (@Worker.NewBuffer.block _ 1 _ rfl) rfl rfl rfl
      (wakes_empty fun _ h => Pc.noConfusion h) rfl) rfl)
  have H₆ := H₅.snoc (@Step.poll Unit LuaString Bool Nat _ _ (fun _ => goProgram) id _ 0 _ _
    (@Worker.Step.sys Unit LuaString Bool _ _ id _ _ _
      (@System.Step.poll Unit LuaString Nat _ id _ 0 _ _ _ rfl rfl
        (@Pollers.Step.enter Unit Nat _ _ () rfl)) rfl) (by simp)
      (fun _ _ => rfl))
  have H₇ := H₆.snoc (@Step.take Unit LuaString Bool Nat _ _ (fun _ => goProgram) id _ 0 () _ _
    ⟨0, 0, 0⟩
    (@Worker.Step.sys Unit LuaString Bool _ _ id _ _ _
      (@System.Step.poll Unit LuaString Nat _ id _ 0 _ _ _ rfl rfl
        (@Pollers.Step.lock Unit Nat _ _ () rfl)) rfl) rfl rfl)
  have H₈ := H₇.snoc (@Step.respond Unit LuaString Bool Nat _ _ (fun _ => goProgram) id _ 0 ()
    ⟨0, 0, 0⟩ [] _ ⟨0, some [104], 1⟩ 2 _ .head rfl ⟨[7], rfl, rfl⟩
    (@Worker.Step.respond Unit LuaString Bool _ _ id _ 0 0 _ (some [104]) _ _ 0 1
      (.head _) rfl (@Worker.NewBuffer.block _ 2 _ rfl)))
  have H₉ := H₈.snoc (@Step.poll Unit LuaString Bool Nat _ _ (fun _ => goProgram) id _ 0 _ _
    (@Worker.Step.sys Unit LuaString Bool _ _ id _ _ _
      (@System.Step.poll Unit LuaString Nat _ id _ 0 _ _ _ rfl rfl
        (@Pollers.Step.enter Unit Nat _ _ () rfl)) rfl) (by simp)
      (fun _ _ => rfl))
  have H₁₀ := H₉.snoc (@Step.take Unit LuaString Bool Nat _ _ (fun _ => goProgram) id _ 0 () _ _
    ⟨1, 1, 0⟩
    (@Worker.Step.sys Unit LuaString Bool _ _ id _ _ _
      (@System.Step.poll Unit LuaString Nat _ id _ 0 _ _ _ rfl rfl
        (@Pollers.Step.lock Unit Nat _ _ () rfl)) rfl) rfl rfl)
  have H₁₁ := H₁₀.snoc (@Step.respond Unit LuaString Bool Nat _ _ (fun _ => goProgram) id _ 0 ()
    ⟨1, 1, 0⟩ [] _ ⟨0, some [105], 1⟩ 3 _ .head rfl ⟨[7], rfl, rfl⟩
    (@Worker.Step.respond Unit LuaString Bool _ _ id _ 1 1 _ (some [105]) _ _ 0 1
      (.head _) rfl (@Worker.NewBuffer.block _ 3 _ rfl)))
  have H₁₂ := H₁₁.snoc (@Step.nginx Unit LuaString Bool Nat _ _ (fun _ => goProgram) id _ _ _
    (@Worker.Step.drain Unit LuaString Bool _ _ id _ rfl) rfl)
  have H₁₃ := H₁₂.snoc (@Step.nginx Unit LuaString Bool Nat _ _ (fun _ => goProgram) id _ _ _
    (@Worker.Step.handle Unit LuaString Bool _ _ id _ 0 [1] 0 _ {} _ _ rfl rfl rfl) rfl)
  have H₁₄ := H₁₃.snoc (@Step.nginx Unit LuaString Bool Nat _ _ (fun _ => goProgram) id _ _ _
    (@Worker.Step.handle Unit LuaString Bool _ _ id _ 1 [] 1 _ {} _ _ rfl rfl rfl) rfl)
  exact ⟨_, H₁₄⟩

/-- The requests of `twoRun` are in the only lane, and both are handled. -/
theorem inOrder_twoRun : ∃ s : Serving Unit LuaString Bool Nat,
    Runs (fun _ => goProgram) id twoRun s ∧ postedIn (fun _ => goProgram) 0 0 twoRun = [0, 1] ∧
      handled twoRun = [0, 1] ∧ InOrder (fun _ => goProgram) 0 twoRun := by
  obtain ⟨s, H⟩ := twoRun_runs
  have hone : PolledBy 0 () twoRun := fun _ _ _ => rfl
  exact ⟨s, H, rfl, rfl, Runs.inOrder H hone⟩

end Serving
end RestyFfi
