import CodeSystemGraph.Ordered
import CodeSystemGraph.Steps

/-!
`map_ordered` at any interleaving of its workers: each claims the next item from a shared counter
and runs the operation on it, whose atomic steps on a shared state are apart.
-/

namespace CodeSystemGraph.Parallel

open Ordered Steps

/-- A call of an operation that has at most so many atomic steps left. -/
inductive Operation (S R : Type) : Nat → Type where
  | result {left : Nat} (r : R) : Operation S R left
  | atomic {left : Nat} (act : S → S) (next : S → Operation S R left) : Operation S R (left + 1)

inductive Task (S R : Type) where
  | claiming
  | running (index : Nat) (left : Nat) (call : Operation S R left)
  | stopped

structure Worker (S R : Type) where
  task : Task S R
  produced : List (Nat × R)

structure Pool (S R : Type) where
  shared : S
  next : Nat
  workers : List (Worker S R)

section Model

variable {S R T : Type} {calls : Nat}

def Operation.finish : {left : Nat} → Operation S R left → S → S × R
  | _, .result r, shared => (shared, r)
  | _, .atomic act next, shared => (next shared).finish (act shared)

variable (items : List T) (operation : T → Operation S R calls)

/-- One atomic step of a worker: a `fetch_add` on the counter, a step of the operation, or the
`push` of its result. -/
def advance (shared : S) (next : Nat) (worker : Worker S R) : Option (S × Nat × Worker S R) :=
  match worker.task with
  | .stopped => none
  | .claiming =>
    match items[next]? with
    | none => some (shared, next + 1, { worker with task := .stopped })
    | some item => some (shared, next + 1, { worker with task := .running next calls (operation item) })
  | .running index _ (.result r) =>
    some (shared, next, ⟨.claiming, worker.produced ++ [(index, r)]⟩)
  | .running index (left + 1) (.atomic act rest) =>
    some (act shared, next, { worker with task := .running index left (rest shared) })

/-- A step of the pool is a step of the worker that is scheduled. -/
def step (pool : Pool S R) (scheduled : Nat) : Option (Pool S R) :=
  pool.workers[scheduled]?.bind fun worker =>
    (advance items operation pool.shared pool.next worker).map fun moved =>
      ⟨moved.1, moved.2.1, pool.workers.set scheduled moved.2.2⟩

def start (shared : S) (workers : Nat) : Pool S R :=
  ⟨shared, 0, List.replicate workers ⟨.claiming, []⟩⟩

def Pool.finished (pool : Pool S R) : Prop := ∀ worker ∈ pool.workers, worker.task = .stopped

def Pool.results (pool : Pool S R) : List R :=
  (sortBy Prod.fst (pool.workers.flatMap Worker.produced)).map Prod.snd

def mapInOrder (shared : S) : List T → S × List R
  | [] => (shared, [])
  | item :: rest =>
    let (shared, r) := (operation item).finish shared
    let (shared, results) := mapInOrder shared rest
    (shared, r :: results)

def workerCount (workers : Nat) : Nat := max 1 (min workers (max items.length 1))

/-- The ends that `map_ordered` can have, one for each schedule. -/
def MapOrdered (workers : Nat) (shared : S) (ended : S × List R) : Prop :=
  if workerCount items workers = 1 then ended = mapInOrder operation shared items
  else ∃ schedule pool, run (step items operation) (start shared (workerCount items workers)) schedule =
    some pool ∧ pool.finished ∧ ended = (pool.shared, pool.results)

end Model

section Steps

variable {S R T : Type} {calls : Nat} {items : List T} {operation : T → Operation S R calls}

def Operation.Keeps (inv : S → Prop) (post : R → Prop) : {left : Nat} → Operation S R left → Prop
  | _, .result r => post r
  | _, .atomic act next => ∀ shared, inv shared → inv (act shared) ∧ (next shared).Keeps inv post

theorem Operation.Keeps.imp {inv : S → Prop} {post post' : R → Prop} {left : Nat}
    {call : Operation S R left} (keeps : call.Keeps inv post) (weaker : ∀ r, post r → post' r) :
    call.Keeps inv post' := by
  induction call with
  | result r => exact weaker r keeps
  | atomic act next ih =>
    exact fun shared holds => ⟨(keeps shared holds).1, ih shared (keeps shared holds).2⟩

theorem Operation.Keeps.finish {inv : S → Prop} {post : R → Prop} {left : Nat}
    {call : Operation S R left} (keeps : call.Keeps inv post) {shared : S} (holds : inv shared) :
    inv (call.finish shared).1 ∧ post (call.finish shared).2 := by
  induction call generalizing shared with
  | result r => exact ⟨holds, keeps⟩
  | atomic act next ih => exact ih shared (keeps shared holds).2 (keeps shared holds).1

def Task.index : Task S R → List Nat
  | .running index _ _ => [index]
  | _ => []

def Worker.indexes (worker : Worker S R) : List Nat :=
  worker.produced.map Prod.fst ++ worker.task.index

structure Worker.Sound (inv : S → Prop) (post : Nat → R → Prop) (length next : Nat)
    (worker : Worker S R) : Prop where
  produced : ∀ entry ∈ worker.produced, post entry.1 entry.2
  running : ∀ {index left : Nat} {call : Operation S R left},
    worker.task = .running index left call → call.Keeps inv (post index)
  stopped : worker.task = .stopped → length ≤ next

theorem Worker.Sound.idle {inv : S → Prop} {post : Nat → R → Prop} {length next : Nat}
    {worker : Worker S R} (produced : ∀ entry ∈ worker.produced, post entry.1 entry.2)
    (idle : worker.task.index = []) (stopped : worker.task = .stopped → length ≤ next) :
    worker.Sound inv post length next where
  produced := produced
  running is := by
    rw [is] at idle
    cases idle
  stopped := stopped

theorem Worker.Sound.mono {inv : S → Prop} {post : Nat → R → Prop} {length next later : Nat}
    {worker : Worker S R} (sound : worker.Sound inv post length next) (le : next ≤ later) :
    worker.Sound inv post length later :=
  ⟨sound.produced, sound.running, fun stopped => (sound.stopped stopped).trans le⟩

theorem step_cases {pool after : Pool S R} {scheduled : Nat}
    (stepped : step items operation pool scheduled = some after) :
    ∃ front worker back moved, pool.workers = front ++ worker :: back ∧
      advance items operation pool.shared pool.next worker = some moved ∧
      after = ⟨moved.1, moved.2.1, front ++ moved.2.2 :: back⟩ := by
  obtain ⟨worker, found, rest⟩ := Option.bind_eq_some_iff.1 stepped
  obtain ⟨moved, advanced, rfl⟩ := Option.map_eq_some_iff.1 rest
  obtain ⟨within, rfl⟩ := List.getElem?_eq_some_iff.1 found
  refine ⟨pool.workers.take scheduled, _, pool.workers.drop (scheduled + 1), moved, ?_, advanced, ?_⟩
  · rw [← List.drop_eq_getElem_cons within, List.take_append_drop]
  · rw [List.set_eq_take_append_cons_drop, if_pos within]

theorem advance_cases {shared : S} {next : Nat} {worker : Worker S R} {moved : S × Nat × Worker S R}
    (advanced : advance items operation shared next worker = some moved) :
    (worker.task = .claiming ∧ items.length ≤ next ∧
      moved = (shared, next + 1, ⟨.stopped, worker.produced⟩)) ∨
    (worker.task = .claiming ∧ ∃ item, items[next]? = some item ∧
      moved = (shared, next + 1, ⟨.running next calls (operation item), worker.produced⟩)) ∨
    (∃ index left r, worker.task = .running index left (.result r) ∧
      moved = (shared, next, ⟨.claiming, worker.produced ++ [(index, r)]⟩)) ∨
    ∃ index left act rest, worker.task = .running index (left + 1) (.atomic act rest) ∧
      moved = (act shared, next, ⟨.running index left (rest shared), worker.produced⟩) := by
  obtain ⟨task, produced⟩ := worker
  cases task with
  | stopped => cases advanced
  | claiming =>
    simp only [advance] at advanced
    split at advanced
    · next none =>
      exact .inl ⟨rfl, List.getElem?_eq_none_iff.1 none, (Option.some.inj advanced).symm⟩
    · next item found => exact .inr (.inl ⟨rfl, item, found, (Option.some.inj advanced).symm⟩)
  | running index left call =>
    cases call with
    | result r => exact .inr (.inr (.inl ⟨index, left, r, rfl, (Option.some.inj advanced).symm⟩))
    | atomic act rest =>
      exact .inr (.inr (.inr ⟨index, _, act, rest, rfl, (Option.some.inj advanced).symm⟩))

end Steps

section Interleavings

variable {S R T : Type} {calls : Nat} (items : List T) (operation : T → Operation S R calls)
  (inv : S → Prop) (post : Nat → R → Prop)

/-- The claimed items are those before the counter, each by one worker. -/
structure Pool.Valid (pool : Pool S R) : Prop where
  shared : inv pool.shared
  claimed : (pool.workers.flatMap Worker.indexes).Perm (List.range (min pool.next items.length))
  workers : ∀ worker ∈ pool.workers, worker.Sound inv post items.length pool.next

variable {items operation inv post}

theorem valid_start {shared : S} (holds : inv shared) (workers : Nat) :
    (start (R := R) shared workers).Valid items inv post := by
  refine ⟨holds, ?_, fun worker mem => ?_⟩
  · have none : (List.replicate workers (⟨.claiming, []⟩ : Worker S R)).flatMap Worker.indexes = [] := by
      rw [List.flatMap_eq_nil_iff]
      intro worker mem
      rw [List.eq_of_mem_replicate mem]
      rfl
    simp only [start, none, Nat.zero_min, List.range_zero, List.Perm.refl]
  · rw [List.eq_of_mem_replicate mem]
    exact .idle (fun entry mem => absurd mem List.not_mem_nil) rfl fun is => by cases is

theorem Worker.Sound.advance {shared : S} {next : Nat} {worker : Worker S R}
    {moved : S × Nat × Worker S R} (sound : worker.Sound inv post items.length next)
    (holds : inv shared)
    (keeps : ∀ index item, items[index]? = some item → (operation item).Keeps inv (post index))
    (advanced : Parallel.advance items operation shared next worker = some moved) :
    inv moved.1 ∧ next ≤ moved.2.1 ∧ moved.2.2.Sound inv post items.length moved.2.1 := by
  rcases advance_cases advanced with ⟨-, ended, rfl⟩ | ⟨-, item, found, rfl⟩ |
    ⟨index, left, r, running, rfl⟩ | ⟨index, left, act, rest, running, rfl⟩
  · exact ⟨holds, Nat.le_succ next, .idle sound.produced rfl fun _ => ended.trans (Nat.le_succ next)⟩
  · refine ⟨holds, Nat.le_succ next, sound.produced, ?_, fun is => by cases is⟩
    rintro _ _ _ ⟨⟩
    exact keeps next item found
  · refine ⟨holds, Nat.le_refl next, .idle (fun entry mem => ?_) rfl fun is => by cases is⟩
    rcases List.mem_append.1 mem with old | new
    · exact sound.produced entry old
    · rw [List.mem_singleton.1 new]
      exact sound.running running
  · have call := sound.running running shared holds
    refine ⟨call.1, Nat.le_refl next, sound.produced, ?_, fun is => by cases is⟩
    rintro _ _ _ ⟨⟩
    exact call.2

theorem indexes_advance {shared : S} {next : Nat} {worker : Worker S R}
    {moved : S × Nat × Worker S R}
    (advanced : advance items operation shared next worker = some moved) :
    ∃ claimed, moved.2.2.indexes.Perm (worker.indexes ++ claimed) ∧
      List.range (min moved.2.1 items.length) = List.range (min next items.length) ++ claimed := by
  rcases advance_cases advanced with ⟨claiming, ended, rfl⟩ | ⟨claiming, item, found, rfl⟩ |
    ⟨index, left, r, running, rfl⟩ | ⟨index, left, act, rest, running, rfl⟩
  · refine ⟨[], by simp [Worker.indexes, claiming, Task.index], ?_⟩
    rw [List.append_nil, Nat.min_eq_right ended, Nat.min_eq_right (Nat.le_succ_of_le ended)]
  · obtain ⟨within, -⟩ := List.getElem?_eq_some_iff.1 found
    refine ⟨[next], by simp [Worker.indexes, claiming, Task.index], ?_⟩
    rw [Nat.min_eq_left (Nat.le_of_lt within), Nat.min_eq_left within, List.range_succ]
  · exact ⟨[], by simp [Worker.indexes, running, Task.index], (List.append_nil _).symm⟩
  · exact ⟨[], by simp [Worker.indexes, running, Task.index], (List.append_nil _).symm⟩

theorem Pool.Valid.step {pool after : Pool S R} {scheduled : Nat}
    (valid : pool.Valid items inv post)
    (keeps : ∀ index item, items[index]? = some item → (operation item).Keeps inv (post index))
    (stepped : Parallel.step items operation pool scheduled = some after) :
    after.Valid items inv post := by
  obtain ⟨front, worker, back, moved, workers, advanced, rfl⟩ := step_cases stepped
  have sound := valid.workers
  have claimed := valid.claimed
  rw [workers] at sound claimed
  obtain ⟨holds, later, moves⟩ :=
    (sound worker (by simp)).advance valid.shared keeps advanced
  obtain ⟨fresh, indexes, counter⟩ := indexes_advance advanced
  refine ⟨holds, ?_, fun other mem => ?_⟩
  · rw [counter]
    simp only [List.flatMap_append, List.flatMap_cons] at claimed ⊢
    have moves := (indexes.append_right (back.flatMap Worker.indexes)).append_left
      (front.flatMap Worker.indexes)
    have last : (front.flatMap Worker.indexes ++
        (worker.indexes ++ fresh ++ back.flatMap Worker.indexes)).Perm
          (front.flatMap Worker.indexes ++ (worker.indexes ++ back.flatMap Worker.indexes) ++ fresh) := by
      rw [List.append_assoc, List.append_assoc, List.append_assoc]
      exact (List.perm_append_comm.append_left _).append_left _
    exact moves.trans (last.trans (claimed.append_right fresh))
  · rcases List.mem_append.1 mem with before | mem
    · exact (sound other (List.mem_append_left _ before)).mono later
    · rcases List.mem_cons.1 mem with rfl | behind
      · exact moves
      · exact (sound other (by simp [behind])).mono later

theorem map_fst_sortBy {entries : List (Nat × R)} {length : Nat}
    (indexes : (entries.map Prod.fst).Perm (List.range length)) :
    (sortBy Prod.fst entries).map Prod.fst = List.range length := by
  have sorted : ((sortBy Prod.fst entries).map Prod.fst).Pairwise (· ≤ ·) :=
    List.pairwise_map.2 (sortBy_sorted Prod.fst entries)
  have range : (List.range length).Pairwise (· ≤ ·) :=
    List.pairwise_lt_range.imp fun less => Nat.le_of_lt less
  refine List.Perm.eq_of_pairwise (fun a b _ _ => Nat.le_antisymm) sorted range ?_
  exact ((sortBy_perm Prod.fst entries).map Prod.fst).trans indexes

theorem Pool.Valid.results {pool : Pool S R} (valid : pool.Valid items inv post)
    (some : pool.workers ≠ []) (finished : pool.finished) :
    pool.results.length = items.length ∧
      ∀ index r, pool.results[index]? = .some r → post index r := by
  obtain ⟨worker, mem⟩ := List.exists_mem_of_ne_nil _ some
  have ended := (valid.workers worker mem).stopped (finished worker mem)
  have indexes : (pool.workers.flatMap Worker.produced).map Prod.fst =
      pool.workers.flatMap Worker.indexes := by
    rw [List.map_flatMap]
    refine List.flatMap_congr fun worker mem => ?_
    simp [Worker.indexes, finished worker mem, Task.index]
  have claimed := valid.claimed
  rw [Nat.min_eq_right ended, ← indexes] at claimed
  have places := map_fst_sortBy claimed
  constructor
  · rw [Pool.results, List.length_map, ← List.length_map (f := Prod.fst), places, List.length_range]
  · intro index r found
    rw [Pool.results, List.getElem?_map, Option.map_eq_some_iff] at found
    obtain ⟨entry, found, rfl⟩ := found
    have place : entry.1 = index := by
      have at_index := congrArg (fun l => l[index]?) places
      simp only [List.getElem?_map, found, Option.map_some] at at_index
      obtain ⟨within, same⟩ := List.getElem?_eq_some_iff.1 at_index.symm
      rw [← same, List.getElem_range]
    obtain ⟨worker, mem, listed⟩ :=
      List.mem_flatMap.1 ((mem_sortBy Prod.fst).1 (List.mem_of_getElem? found))
    rw [← place]
    exact (valid.workers worker mem).produced entry listed

theorem mapInOrder_rule {shared : S} (holds : inv shared)
    (keeps : ∀ index item, items[index]? = some item → (operation item).Keeps inv (post index))
    {before rest : List T} (all : before ++ rest = items) :
    inv (mapInOrder operation shared rest).1 ∧
      (mapInOrder operation shared rest).2.length = rest.length ∧
      ∀ index r, (mapInOrder operation shared rest).2[index]? = some r →
        post (before.length + index) r := by
  induction rest generalizing before shared with
  | nil => exact ⟨holds, rfl, fun index r is => by cases is⟩
  | cons item rest ih =>
    have found : items[before.length]? = some item := by
      rw [← all, List.getElem?_append_right (Nat.le_refl _), Nat.sub_self, List.getElem?_cons_zero]
    obtain ⟨kept, first⟩ := (keeps before.length item found).finish holds
    obtain ⟨ended, length, others⟩ := @ih _ kept (before ++ [item]) (by simp [all])
    refine ⟨ended, congrArg Nat.succ length, fun index r is => ?_⟩
    cases index with
    | zero =>
      obtain rfl := Option.some.inj is
      exact first
    | succ index =>
      have place := others index r is
      rwa [List.length_append, List.length_singleton, Nat.add_right_comm, Nat.add_assoc] at place

theorem workerCount_pos (items : List T) (workers : Nat) : 0 < workerCount items workers :=
  Nat.lt_of_lt_of_le Nat.one_pos (Nat.le_max_left _ _)

theorem run_valid {shared : S} (holds : inv shared)
    (keeps : ∀ index item, items[index]? = some item → (operation item).Keeps inv (post index))
    {workers : Nat} (some : 0 < workers) {schedule : List Nat} {pool : Pool S R}
    (ran : run (step items operation) (start shared workers) schedule = .some pool) :
    pool.Valid items inv post ∧ pool.workers ≠ [] := by
  refine @run_keeps _ _ (step items operation)
    (fun pool => pool.Valid items inv post ∧ pool.workers ≠ []) ?_ _ _ _ ?_ ran
  · intro pool scheduled after both stepped
    refine ⟨both.1.step keeps stepped, ?_⟩
    obtain ⟨front, worker, back, moved, -, -, rfl⟩ := step_cases stepped
    exact List.append_ne_nil_of_right_ne_nil front (List.cons_ne_nil _ back)
  · refine ⟨valid_start holds workers, ?_⟩
    rw [start, Ne, List.replicate_eq_nil_iff]
    exact Nat.ne_of_gt some

end Interleavings

section Termination

variable {S R T : Type} {calls : Nat} {items : List T} {operation : T → Operation S R calls}

/-- The steps that a worker still takes without another item. -/
def Task.weight : Task S R → Nat
  | .claiming => 1
  | .running _ left _ => left + 2
  | .stopped => 0

def workLeft : List (Worker S R) → Nat
  | [] => 0
  | worker :: workers => worker.task.weight + workLeft workers

def Pool.weight (length calls : Nat) (pool : Pool S R) : Nat :=
  workLeft pool.workers + (length - pool.next) * (calls + 2)

theorem workLeft_append (workers more : List (Worker S R)) :
    workLeft (workers ++ more) = workLeft workers + workLeft more := by
  induction workers with
  | nil => rw [List.nil_append, workLeft, Nat.zero_add]
  | cons worker workers ih => rw [List.cons_append, workLeft, workLeft, ih, Nat.add_assoc]

theorem weight_advance {shared : S} {next : Nat} {worker : Worker S R}
    {moved : S × Nat × Worker S R}
    (advanced : advance items operation shared next worker = some moved) :
    moved.2.2.task.weight + (items.length - moved.2.1) * (calls + 2) <
      worker.task.weight + (items.length - next) * (calls + 2) := by
  rcases advance_cases advanced with ⟨claiming, ended, rfl⟩ | ⟨claiming, item, found, rfl⟩ |
    ⟨index, left, r, running, rfl⟩ | ⟨index, left, act, rest, running, rfl⟩
  · have same : items.length - (next + 1) = items.length - next := by omega
    simp [same, claiming, Task.weight]
  · obtain ⟨within, -⟩ := List.getElem?_eq_some_iff.1 found
    have one : items.length - next = items.length - (next + 1) + 1 := by omega
    rw [one, Nat.add_mul, Nat.one_mul]
    simp only [claiming, Task.weight]
    omega
  · simp [running, Task.weight]
  · simp only [running, Task.weight]
    omega

theorem weight_step {pool after : Pool S R} {scheduled : Nat}
    (stepped : step items operation pool scheduled = some after) :
    after.weight items.length calls < pool.weight items.length calls := by
  obtain ⟨front, worker, back, moved, workers, advanced, rfl⟩ := step_cases stepped
  have less := weight_advance advanced
  simp only [Pool.weight, workers, workLeft_append, workLeft]
  omega

theorem length_run_le {pool after : Pool S R} {schedule : List Nat}
    (ran : run (step items operation) pool schedule = some after) :
    schedule.length + after.weight items.length calls ≤ pool.weight items.length calls := by
  induction schedule generalizing pool with
  | nil =>
    obtain rfl := Option.some.inj ran
    rw [List.length_nil, Nat.zero_add]
  | cons scheduled schedule ih =>
    obtain ⟨next, stepped, rest⟩ := run_cons_eq_some.1 ran
    have less := weight_step stepped
    have more := ih rest
    rw [List.length_cons]
    omega

theorem exists_step {pool : Pool S R} (unfinished : ¬pool.finished) :
    ∃ scheduled after, step items operation pool scheduled = some after := by
  simp only [Pool.finished, not_forall] at unfinished
  obtain ⟨worker, mem, going⟩ := unfinished
  obtain ⟨scheduled, found⟩ := List.mem_iff_getElem?.1 mem
  have moves : ∃ moved, advance items operation pool.shared pool.next worker = some moved := by
    obtain ⟨task, produced⟩ := worker
    cases task with
    | stopped => exact absurd rfl going
    | claiming => cases item : items[pool.next]? <;> exact ⟨_, by simp only [advance, item]; rfl⟩
    | running index left call => cases call <;> exact ⟨_, rfl⟩
  obtain ⟨moved, advanced⟩ := moves
  exact ⟨scheduled, _, by rw [step, found, Option.bind_some, advanced]; rfl⟩

theorem exists_finished (pool : Pool S R) :
    ∃ schedule after, run (step items operation) pool schedule = some after ∧ after.finished := by
  by_cases finished : pool.finished
  · exact ⟨[], pool, rfl, finished⟩
  · obtain ⟨scheduled, next, stepped⟩ := @exists_step _ _ _ _ items operation _ finished
    have less := weight_step stepped
    obtain ⟨schedule, after, ran, ends⟩ := exists_finished next
    exact ⟨scheduled :: schedule, after, run_cons_eq_some.2 ⟨next, stepped, ran⟩, ends⟩
termination_by pool.weight items.length calls

end Termination

theorem mapOrdered_spec {S R T : Type} {calls : Nat} {items : List T}
    {operation : T → Operation S R calls} {inv : S → Prop} {post : Nat → R → Prop} {shared : S}
    (holds : inv shared)
    (keeps : ∀ index item, items[index]? = some item → (operation item).Keeps inv (post index))
    (workers : Nat) :
    (∀ schedule pool,
      run (step items operation) (start shared (workerCount items workers)) schedule = some pool →
        schedule.length ≤ workerCount items workers + items.length * (calls + 2) ∧
        ∃ rest last, run (step items operation) pool rest = some last ∧ last.finished) ∧
    ∀ ended, MapOrdered items operation workers shared ended →
      inv ended.1 ∧ ended.2.length = items.length ∧
        ∀ index r, ended.2[index]? = some r → post index r := by
  constructor
  · intro schedule pool ran
    refine ⟨?_, exists_finished pool⟩
    have bound := length_run_le ran
    have weight : ∀ count, workLeft (List.replicate count (⟨.claiming, []⟩ : Worker S R)) = count := by
      intro count
      induction count with
      | zero => rfl
      | succ count ih => rw [List.replicate_succ, workLeft, ih, Task.weight, Nat.add_comm]
    simp only [start, Pool.weight, weight, Nat.sub_zero] at bound
    omega
  · intro ended ends
    rw [MapOrdered] at ends
    split at ends
    · rw [ends]
      have all := @mapInOrder_rule _ _ _ _ items operation inv post _ holds keeps [] _ (List.nil_append items)
      simpa only [List.length_nil, Nat.zero_add] using all
    · obtain ⟨schedule, pool, ran, finished, rfl⟩ := ends
      obtain ⟨valid, some⟩ := run_valid holds keeps (workerCount_pos items workers) ran
      exact ⟨valid.shared, valid.results some finished⟩

theorem mapOrdered_exact {S R T : Type} {calls : Nat} {items : List T}
    {operation : T → Operation S R calls} {f : T → R}
    (reports : ∀ item ∈ items, (operation item).Keeps (fun _ => True) (· = f item))
    (workers : Nat) (shared : S) :
    (∀ schedule pool,
      run (step items operation) (start shared (workerCount items workers)) schedule = some pool →
        schedule.length ≤ workerCount items workers + items.length * (calls + 2) ∧
        ∃ rest last, run (step items operation) pool rest = some last ∧ last.finished) ∧
    (∃ ended, MapOrdered items operation workers shared ended) ∧
    ∀ ended, MapOrdered items operation workers shared ended → ended.2 = items.map f := by
  have spec := @mapOrdered_spec _ _ _ _ items operation (fun _ => True)
    (fun index r => ∃ item, items[index]? = some item ∧ r = f item) shared trivial
    (fun index item found => (reports item (List.mem_of_getElem? found)).imp fun r is =>
      ⟨item, found, is⟩) workers
  refine ⟨spec.1, ?_, fun ended ends => ?_⟩
  · by_cases one : workerCount items workers = 1
    · exact ⟨mapInOrder operation shared items, by rw [MapOrdered, if_pos one]⟩
    · obtain ⟨schedule, pool, ran, finished⟩ :=
        @exists_finished _ _ _ _ items operation (start shared (workerCount items workers))
      exact ⟨_, by rw [MapOrdered, if_neg one]; exact ⟨schedule, pool, ran, finished, rfl⟩⟩
  · obtain ⟨-, length, all⟩ := spec.2 ended ends
    refine List.ext_getElem? fun index => ?_
    rw [List.getElem?_map]
    cases found : ended.2[index]? with
    | none =>
      have above := length ▸ List.getElem?_eq_none_iff.1 found
      rw [List.getElem?_eq_none_iff.2 above, Option.map_none]
    | some r =>
      obtain ⟨item, here, rfl⟩ := all index r found
      rw [here, Option.map_some]

theorem mapOrdered_exact_turns :
    let operation : Nat → Operation Nat Nat 1 := fun item =>
      .atomic (· + item) fun _ => .result (item * 3)
    MapOrdered [5, 7, 9] operation 2 0 (21, [15, 21, 27]) ∧
      ∀ ended, MapOrdered [5, 7, 9] operation 2 0 ended → ended.2 = [15, 21, 27] := by
  intro operation
  constructor
  · refine (if_neg (by decide)).mpr ⟨[0, 1, 1, 0, 1, 1, 0, 0, 1, 1, 1], ⟨21, 5,
      [⟨.stopped, [(0, 15)]⟩, ⟨.stopped, [(1, 21), (2, 27)]⟩]⟩, rfl, ?_, rfl⟩
    simp [Pool.finished]
  · exact (@mapOrdered_exact _ _ _ _ _ operation (· * 3) (fun item _ shared _ => ⟨trivial, rfl⟩) 2 0).2.2

end CodeSystemGraph.Parallel
