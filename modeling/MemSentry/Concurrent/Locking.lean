import MemSentry.Core.ShardedTracker
import MemSentry.Library.LockOrder

/-!
# The locks of the library

Which mutex every function takes, in what order, under which recursion guard, and where it
may call `operator new` or `operator delete` by way of a container or a string. These
operators are MemSentry's own hooks: with the guard of the thread inactive they run
`allocate` or `deallocate`, which take locks themselves.

A function is the set of the programs it may run, one for each way through its branches and
loops. Where a container may allocate, the program has any number of hooks. What else the
functions do is in the other modules. The lock that the compiler puts around a local
`static` is a mutex like the others: taken once, by the first thread that comes along.

`no_deadlock` is about any number of threads that use the library at the same time.
-/

namespace MemSentry.Locking

open LockOrder MemSentry.Core

inductive Mutex
  /-- Around the `static` of `Manager::instance`, and of the other two singletons. -/
  | managerInit
  | engineInit
  | providerInit
  /-- `SuppressionEngine::mutex_`. -/
  | suppression
  /-- `StackTraceProvider::symbol_mutex_`. -/
  | symbols
  | shard (i : Fin shardCount)
  /-- `FreeBlockHistogram::mutex_`. -/
  | freeHist
  deriving DecidableEq

abbrev Code := Language (Op Mutex)

/-- A branch that may not be taken. -/
def opt (l : Code) : Code := 1 + l

/-- A loop. -/
def many (l : Code) : Code := KStar.kstar l

/-! ## Singletons -/

/-- The lambda of `Manager::instance` and the constructor, each with a guard. -/
def managerInstance : Code := opt (locked .managerInit (guarded (hooks * guarded 1)))

/-- The constructor of `SuppressionEngine` allocates nothing. -/
def engineInstance : Code := opt (locked .engineInit 1)

def providerInstance : Code := opt (locked .providerInit (guarded (hooks * guarded 1)))

/-! ## Stack traces -/

def resolveFrame : Code := guarded (locked .symbols hooks)

def resolve : Code := hooks * many (resolveFrame * hooks)

def cleanup : Code := guarded (locked .symbols hooks)

/-! ## Suppressions -/

def addRule : Code := guarded (locked .suppression hooks)

def clearRules : Code := guarded (locked .suppression hooks)

def ruleCount : Code := locked .suppression 1

/-- The frames are resolved with the mutex held. -/
def isSuppressed : Code :=
  guarded (locked .suppression (hooks * opt (providerInstance * resolve) * hooks))

/-! ## The tracker -/

def trackerInsert : Code := opt (oneOf fun p : Ptr => locked (.shard (getShardIndex p)) hooks)

def trackerErase : Code := opt (oneOf fun p : Ptr => locked (.shard (getShardIndex p)) hooks)

/-- The record that `find` copies owns no memory. -/
def trackerFind : Code := opt (oneOf fun p : Ptr => locked (.shard (getShardIndex p)) 1)

def snapshotAll : Code :=
  guarded ((List.finRange shardCount).map fun i => locked (.shard i) hooks).prod

def trackerSize : Code := ((List.finRange shardCount).map fun i => locked (.shard i) 1).prod

/-! ## Histogram of freed blocks -/

def freeHistRecord : Code := locked .freeHist 1

def freeHistSnapshot : Code := locked .freeHist hooks

/-! ## Reports -/

/-- The loop over the records that `print_leaks`, `serialize`, `generate` and `build_tree`
have in common. -/
def resolveRecords : Code := many (hooks * opt resolve * hooks)

def printLeaks : Code := opt (hooks * providerInstance * resolveRecords)

def serialize : Code := hooks * providerInstance * resolveRecords

def buildTree : Code := guarded (hooks * providerInstance * resolveRecords)

def generateSvg : Code := guarded hooks

def generateHtml : Code :=
  hooks * providerInstance * hooks * buildTree * hooks * generateSvg * resolveRecords

/-! ## The interface -/

def init : Code := managerInstance * guarded (hooks * opt providerInstance)

def shutdown : Code := managerInstance * opt (guarded (providerInstance * cleanup))

/-- `is_initialized` and `get_stats` read atomic variables. -/
def readState : Code := managerInstance

def hasLeaks : Code := managerInstance * trackerSize

/-- The loop over the records that asks for each whether it is suppressed. -/
def filterLeaks : Code := many (engineInstance * isSuppressed * hooks)

/-- `has_unsuppressed_leaks` and `get_suppressed_count`. -/
def countLeaks : Code := guarded (snapshotAll * filterLeaks * hooks)

def dumpLeaks : Code := guarded (snapshotAll * hooks * filterLeaks * printLeaks * hooks)

def exportJson : Code := guarded (snapshotAll * hooks * filterLeaks * hooks * opt serialize * hooks)

def exportHtml : Code :=
  guarded (snapshotAll * hooks * filterLeaks * hooks * opt generateHtml * hooks)

def takeSnapshot : Code := guarded (hooks * snapshotAll * hooks)

def getFragmentationReport : Code := guarded (snapshotAll * hooks * freeHistSnapshot * hooks)

def getFlamegraphSvg : Code := guarded (snapshotAll * hooks * buildTree * hooks * generateSvg * hooks)

/-- The text is made under the guard of `get_flamegraph_svg` and given up after the guard
of the function itself. -/
def exportFlamegraphSvg : Code := managerInstance * getFlamegraphSvg * guarded hooks * hooks

def onExit : Code := managerInstance * opt (dumpLeaks * opt countLeaks)

/-- The functions of the interface that do not allocate for the caller. -/
def interface : Code :=
  init + shutdown + readState + hasLeaks + managerInstance * countLeaks +
    managerInstance * guarded snapshotAll + engineInstance * addRule +
    engineInstance * clearRules + engineInstance * ruleCount + managerInstance * dumpLeaks +
    managerInstance * exportJson + managerInstance * exportHtml + managerInstance * takeSnapshot +
    managerInstance * getFragmentationReport + managerInstance * getFlamegraphSvg +
    exportFlamegraphSvg + onExit

/-! ## Allocation -/

/-- `on_limit_exceeded` may allocate, release and use the interface. -/
def onLimitExceeded : Code := many ({[.hook]} + interface)

def allocate : Code :=
  1 + guarded (1 + opt providerInstance * trackerInsert * opt onLimitExceeded)

def deallocate : Code := 1 + guarded (trackerErase * hooks * opt freeHistRecord * hooks)

def reallocate : Code :=
  allocate + deallocate + 1 + trackerFind * (1 + hooks * allocate * opt deallocate)

def trackAlloc : Code := managerInstance * (1 + managerInstance * allocate)

def trackFree : Code := 1 + managerInstance * deallocate

def trackRealloc : Code := managerInstance * (1 + managerInstance * reallocate)

/-- What a hook does with the guard inactive. -/
def hookBodies : Code := trackAlloc + trackFree + trackRealloc

/-- What the threads of a program call. -/
def clientCalls : Code := {[.hook]} + interface

/-! ## The order of the locks -/

def rank : Mutex → Nat
  | .managerInit | .engineInit => 0
  | .suppression => 1
  | .providerInit => 2
  | .symbols => 3
  | .shard _ | .freeHist => 4

theorem rank_lt (k : Mutex) : rank k < 5 := by
  cases k <;> simp [rank]

section Keeps

variable {held : List Mutex} {depth : Nat} {l m : Code}

theorem keeps_opt (h : Keeps rank held depth l) : Keeps rank held depth (opt l) :=
  keeps_one.add h

theorem keeps_many (h : Keeps rank held depth l) : Keeps rank held depth (many l) := h.kstar

theorem keeps_hook (h : held = [] ∨ 0 < depth) : Keeps rank held depth {[.hook]} := by
  intro p hp
  refine keeps_hooks h p ?_
  have hjoin := Language.join_mem_kstar (l := {[Op.hook]}) (L := [p]) (by simpa using hp)
  rwa [List.flatten_cons, List.flatten_nil, List.append_nil] at hjoin

/-- Inside a guard every hook passes. -/
theorem keeps_hooks_guarded : Keeps rank held (depth + 1) hooks :=
  keeps_hooks (Or.inr (Nat.succ_pos _))

theorem keeps_managerInstance : Keeps rank [] depth managerInstance :=
  keeps_opt (Keeps.locked (fun _ h => by cases h)
    (keeps_hooks_guarded.mul keeps_one.guarded).guarded)

theorem keeps_engineInstance : Keeps rank [] depth engineInstance :=
  keeps_opt (Keeps.locked (fun _ h => by cases h) keeps_one)

theorem keeps_providerInstance (h : ∀ k ∈ held, rank k < 2) :
    Keeps rank held depth providerInstance :=
  keeps_opt (Keeps.locked h (keeps_hooks_guarded.mul keeps_one.guarded).guarded)

theorem keeps_resolveFrame (h : ∀ k ∈ held, rank k < 3) : Keeps rank held depth resolveFrame :=
  (Keeps.locked h keeps_hooks_guarded).guarded

theorem keeps_resolve (h : ∀ k ∈ held, rank k < 3) (hopen : held = [] ∨ 0 < depth) :
    Keeps rank held depth resolve :=
  (keeps_hooks hopen).mul (keeps_many ((keeps_resolveFrame h).mul (keeps_hooks hopen)))

theorem keeps_cleanup : Keeps rank [] depth cleanup :=
  (Keeps.locked (fun _ h => by cases h) keeps_hooks_guarded).guarded

theorem keeps_rules : Keeps rank [] depth (guarded (locked .suppression hooks)) :=
  (Keeps.locked (fun _ h => by cases h) keeps_hooks_guarded).guarded

/-- Resolving the frames takes its locks above `SuppressionEngine::mutex_`. -/
theorem keeps_isSuppressed : Keeps rank [] depth isSuppressed := by
  have habove : ∀ {n : Nat}, 1 < n → ∀ k ∈ [Mutex.suppression], rank k < n := by
    intro n hn k hk
    rw [List.mem_singleton] at hk
    rw [hk]
    exact hn
  refine (Keeps.locked (fun _ h => by cases h) ?_).guarded
  exact (keeps_hooks_guarded.mul (keeps_opt ((keeps_providerInstance (habove (by decide))).mul
    (keeps_resolve (habove (by decide)) (Or.inr (Nat.succ_pos _)))))).mul keeps_hooks_guarded

theorem keeps_trackerInsert : Keeps rank [] (depth + 1) trackerInsert :=
  keeps_opt (Keeps.oneOf fun _ => Keeps.locked (fun _ h => by cases h) keeps_hooks_guarded)

theorem keeps_trackerErase : Keeps rank [] (depth + 1) trackerErase :=
  keeps_opt (Keeps.oneOf fun _ => Keeps.locked (fun _ h => by cases h) keeps_hooks_guarded)

theorem keeps_trackerFind : Keeps rank [] depth trackerFind :=
  keeps_opt (Keeps.oneOf fun _ => Keeps.locked (fun _ h => by cases h) keeps_one)

theorem keeps_snapshotAll : Keeps rank [] depth snapshotAll :=
  (Keeps.prod fun _ _ => Keeps.locked (fun _ h => by cases h) keeps_hooks_guarded).guarded

theorem keeps_trackerSize : Keeps rank [] depth trackerSize :=
  Keeps.prod fun _ _ => Keeps.locked (fun _ h => by cases h) keeps_one

theorem keeps_resolveRecords : Keeps rank [] (depth + 1) resolveRecords :=
  keeps_many ((keeps_hooks_guarded.mul (keeps_opt (keeps_resolve (fun _ h => by cases h)
    (Or.inl rfl)))).mul keeps_hooks_guarded)

theorem keeps_filterLeaks : Keeps rank [] (depth + 1) filterLeaks :=
  keeps_many ((keeps_engineInstance.mul keeps_isSuppressed).mul keeps_hooks_guarded)

theorem keeps_provider : Keeps rank [] depth providerInstance :=
  keeps_providerInstance fun _ h => by cases h

theorem keeps_serialize : Keeps rank [] (depth + 1) serialize :=
  (keeps_hooks_guarded.mul keeps_provider).mul keeps_resolveRecords

theorem keeps_buildTree : Keeps rank [] depth buildTree :=
  ((keeps_hooks_guarded.mul keeps_provider).mul keeps_resolveRecords).guarded

theorem keeps_generateSvg : Keeps rank [] depth generateSvg := keeps_hooks_guarded.guarded

theorem keeps_generateHtml : Keeps rank [] (depth + 1) generateHtml :=
  (((((keeps_hooks_guarded.mul keeps_provider).mul keeps_hooks_guarded).mul keeps_buildTree).mul
    keeps_hooks_guarded).mul keeps_generateSvg).mul keeps_resolveRecords

theorem keeps_countLeaks : Keeps rank [] depth countLeaks :=
  ((keeps_snapshotAll.mul keeps_filterLeaks).mul keeps_hooks_guarded).guarded

theorem keeps_dumpLeaks : Keeps rank [] depth dumpLeaks :=
  ((((keeps_snapshotAll.mul keeps_hooks_guarded).mul keeps_filterLeaks).mul
    (keeps_opt keeps_serialize)).mul keeps_hooks_guarded).guarded

/-- `export_json` and `export_html` differ in the text they write. -/
theorem keeps_export (h : Keeps rank [] (depth + 1) l) : Keeps rank [] depth
    (guarded (snapshotAll * hooks * filterLeaks * hooks * opt l * hooks)) :=
  (((((keeps_snapshotAll.mul keeps_hooks_guarded).mul keeps_filterLeaks).mul
    keeps_hooks_guarded).mul (keeps_opt h)).mul keeps_hooks_guarded).guarded

theorem keeps_takeSnapshot : Keeps rank [] depth takeSnapshot :=
  ((keeps_hooks_guarded.mul keeps_snapshotAll).mul keeps_hooks_guarded).guarded

theorem keeps_getFragmentationReport : Keeps rank [] depth getFragmentationReport :=
  (((keeps_snapshotAll.mul keeps_hooks_guarded).mul (Keeps.locked (fun _ h => by cases h)
    keeps_hooks_guarded)).mul keeps_hooks_guarded).guarded

theorem keeps_getFlamegraphSvg : Keeps rank [] depth getFlamegraphSvg :=
  (((((keeps_snapshotAll.mul keeps_hooks_guarded).mul keeps_buildTree).mul
    keeps_hooks_guarded).mul keeps_generateSvg).mul keeps_hooks_guarded).guarded

theorem keeps_exportFlamegraphSvg : Keeps rank [] depth exportFlamegraphSvg :=
  ((keeps_managerInstance.mul keeps_getFlamegraphSvg).mul keeps_generateSvg).mul
    (keeps_hooks (Or.inl rfl))

theorem keeps_init : Keeps rank [] depth init :=
  keeps_managerInstance.mul (keeps_hooks_guarded.mul (keeps_opt keeps_provider)).guarded

theorem keeps_shutdown : Keeps rank [] depth shutdown :=
  keeps_managerInstance.mul (keeps_opt (keeps_provider.mul keeps_cleanup).guarded)

theorem keeps_onExit : Keeps rank [] depth onExit :=
  keeps_managerInstance.mul (keeps_opt (keeps_dumpLeaks.mul (keeps_opt keeps_countLeaks)))

theorem keeps_interface : Keeps rank [] depth interface := by
  have hmanager : ∀ {l : Code}, Keeps rank [] depth l →
      Keeps rank [] depth (managerInstance * l) := fun h => keeps_managerInstance.mul h
  have hengine : ∀ {l : Code}, Keeps rank [] depth l →
      Keeps rank [] depth (engineInstance * l) := fun h => keeps_engineInstance.mul h
  have hcount : Keeps rank [] depth ruleCount := Keeps.locked (fun _ h => by cases h) keeps_one
  unfold interface
  refine Keeps.add (Keeps.add (Keeps.add (Keeps.add (Keeps.add (Keeps.add (Keeps.add (Keeps.add
    (Keeps.add (Keeps.add (Keeps.add (Keeps.add (Keeps.add (Keeps.add (Keeps.add (Keeps.add
    keeps_init keeps_shutdown) keeps_managerInstance) (hmanager keeps_trackerSize))
    (hmanager keeps_countLeaks)) (hmanager keeps_snapshotAll.guarded)) (hengine keeps_rules))
    (hengine keeps_rules)) (hengine hcount)) (hmanager keeps_dumpLeaks))
    (hmanager (keeps_export keeps_serialize))) (hmanager (keeps_export keeps_generateHtml)))
    (hmanager keeps_takeSnapshot)) (hmanager keeps_getFragmentationReport))
    (hmanager keeps_getFlamegraphSvg)) keeps_exportFlamegraphSvg) keeps_onExit

/-- The callback runs under the guard of `allocate` and with no lock. -/
theorem keeps_onLimitExceeded : Keeps rank [] depth onLimitExceeded :=
  keeps_many ((keeps_hook (Or.inl rfl)).add keeps_interface)

theorem keeps_allocate : Keeps rank [] depth allocate :=
  keeps_one.add (keeps_one.add (((keeps_opt keeps_provider).mul keeps_trackerInsert).mul
    (keeps_opt keeps_onLimitExceeded))).guarded

theorem keeps_deallocate : Keeps rank [] depth deallocate :=
  keeps_one.add (((keeps_trackerErase.mul keeps_hooks_guarded).mul (keeps_opt
    (Keeps.locked (fun _ h => by cases h) keeps_one))).mul keeps_hooks_guarded).guarded

theorem keeps_reallocate : Keeps rank [] depth reallocate :=
  ((keeps_allocate.add keeps_deallocate).add keeps_one).add (keeps_trackerFind.mul
    (keeps_one.add (((keeps_hooks (Or.inl rfl)).mul keeps_allocate).mul
      (keeps_opt keeps_deallocate))))

theorem keeps_hookBodies : Keeps rank [] depth hookBodies :=
  ((keeps_managerInstance.mul (keeps_one.add (keeps_managerInstance.mul keeps_allocate))).add
    (keeps_one.add (keeps_managerInstance.mul keeps_deallocate))).add
    (keeps_managerInstance.mul (keeps_one.add (keeps_managerInstance.mul keeps_reallocate)))

theorem keeps_clientCalls : Keeps rank [] depth clientCalls :=
  (keeps_hook (Or.inl rfl)).add keeps_interface

end Keeps

/-! ## Any number of threads -/

section Threads

variable {ι : Type} [DecidableEq ι] {s : Pool ι Mutex}

/-- `track_free` of a null pointer takes no lock. -/
theorem nil_mem_hookBodies : [] ∈ hookBodies := by
  unfold hookBodies trackFree
  simp only [Language.mem_add, Language.mem_one, true_or, or_true]

theorem reachable_sound (h : Reachable clientCalls hookBodies s) : s.Sound rank :=
  LockOrder.reachable_sound keeps_clientCalls keeps_hookBodies h

/-- However the threads interleave, there is no deadlock: while some thread has work left,
one with work left can take its next step. No thread ever waits for a mutex that it holds
itself. -/
theorem no_deadlock (h : Reachable clientCalls hookBodies s) :
    (∀ i, (s.threads i).todo ≠ [] →
      ∃ j s', (s.threads j).todo ≠ [] ∧ Step clientCalls hookBodies s j s') ∧
    ∀ i k, (s.threads i).wants = some k → s.owner k ≠ some i := by
  have hsound := reachable_sound h
  exact ⟨fun i hwork => hsound.some_thread_moves rank_lt nil_mem_hookBodies hwork,
    fun i k hwants => hsound.not_own hwants⟩

/-- A way through `add_rule` on which the list of the rules grows. -/
def addRuleProgram : List (Op Mutex) :=
  [.enter, .acquire .suppression, .hook, .release .suppression, .leave]

theorem addRuleProgram_mem : addRuleProgram ∈ clientCalls := by
  have hhooks : [Op.hook] ∈ (hooks : Code) :=
    Language.mem_kstar.mpr ⟨[[.hook]], rfl, fun _ h => List.mem_singleton.mp h⟩
  have hlocked : [.acquire .suppression, .hook, .release .suppression]
      ∈ locked Mutex.suppression hooks :=
    Language.mem_mul.mpr ⟨[.acquire .suppression, .hook], Language.mem_mul.mpr
      ⟨_, rfl, _, hhooks, rfl⟩, _, rfl, rfl⟩
  have hrule : addRuleProgram ∈ addRule :=
    Language.mem_mul.mpr ⟨[.enter, .acquire .suppression, .hook, .release .suppression],
      Language.mem_mul.mpr ⟨_, rfl, _, hlocked, rfl⟩, _, rfl, rfl⟩
  have hcall : addRuleProgram ∈ engineInstance * addRule :=
    Language.mem_mul.mpr ⟨[], Or.inl rfl, _, hrule, rfl⟩
  simp only [clientCalls, interface, Language.mem_add, hcall, true_or, or_true]

/-- Two threads in `add_rule`: the first holds the mutex and is about to allocate, the
second waits for it. -/
def contended : Pool Bool Mutex where
  owner := fun k => if k = .suppression then some false else none
  threads
    | false => ⟨[.hook, .release .suppression, .leave], [.suppression], 1⟩
    | true => ⟨[.acquire .suppression, .hook, .release .suppression, .leave], [], 1⟩

theorem contended_reachable : Reachable clientCalls hookBodies contended := by
  have hrun : Reachable clientCalls hookBodies _ :=
    ((((Relation.ReflTransGen.single ⟨false, .call _ false _ [] 0 rfl addRuleProgram_mem⟩).tail
      ⟨false, .enter _ false _ [] 0 rfl⟩).tail
      ⟨false, .acquire _ false .suppression _ [] 1 rfl rfl⟩).tail
      ⟨true, .call _ true _ [] 0 rfl addRuleProgram_mem⟩).tail
      ⟨true, .enter _ true _ [] 0 rfl⟩
  convert hrun using 1
  refine congr (congrArg Pool.mk ?_) ?_
  · funext k
    simp [Pool.set, Pool.own, Pool.start, Function.update_apply]
  · funext i
    cases i <;> rfl

theorem no_deadlock_two :
    (contended.threads true).wants = some .suppression ∧
    (∃ j s', (contended.threads j).todo ≠ [] ∧ Step clientCalls hookBodies contended j s') ∧
    contended.owner .suppression ≠ some true := by
  refine ⟨rfl, ?_⟩
  obtain ⟨hmoves, hown⟩ := no_deadlock contended_reachable
  exact ⟨hmoves true (List.cons_ne_nil _ _), hown true .suppression rfl⟩

/-- An allocation or release that a thread makes while it holds a mutex finds the guard
active and goes to the system allocator. After each call the thread has given back all
mutexes, and its guard is as inactive as before. -/
theorem guard_covers_locks (h : Reachable clientCalls hookBodies s) (i : ι) :
    (∀ p, (s.threads i).todo = .hook :: p → (s.threads i).held ≠ [] →
      0 < (s.threads i).depth) ∧
    ((s.threads i).todo = [] → (s.threads i).held = [] ∧ (s.threads i).depth = 0) := by
  have hsound := reachable_sound h
  exact ⟨fun p hhook hheld => hsound.hook_guarded hhook hheld, hsound.done⟩

theorem guard_covers_locks_two : 0 < (contended.threads false).depth :=
  (guard_covers_locks contended_reachable false).1 _ rfl (List.cons_ne_nil _ _)

end Threads

end MemSentry.Locking
