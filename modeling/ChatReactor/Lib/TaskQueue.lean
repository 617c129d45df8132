/-!
# A task queue drained in batches

Tasks are pushed at the back of `pending`; a drain swaps `pending` into `batch` and then runs the batch
task by task, while new ones are pushed. The order in which tasks will run is `all`: a push
appends to it, a swap does not change it, and running a task takes its head off.
-/

structure TaskQueue (F : Type) where
  /-- What the drain under way has still to run. -/
  batch : List F
  pending : List F
deriving DecidableEq, Repr

namespace TaskQueue
variable {F : Type}

def push (q : TaskQueue F) (f : F) : TaskQueue F := { q with pending := q.pending ++ [f] }

def pushAll (q : TaskQueue F) (fs : List F) : TaskQueue F := { q with pending := q.pending ++ fs }

/-- Begin a drain. -/
def swap (q : TaskQueue F) : TaskQueue F := ⟨q.pending, []⟩

/-- The tasks in the order in which they will run. -/
def all (q : TaskQueue F) : List F := q.batch ++ q.pending

@[simp] theorem all_push (q : TaskQueue F) (f : F) : (q.push f).all = q.all ++ [f] := by simp [all, push]

@[simp] theorem all_pushAll (q : TaskQueue F) (fs : List F) : (q.pushAll fs).all = q.all ++ fs := by simp [all, pushAll]

theorem all_swap {q : TaskQueue F} (h : q.batch = []) : q.swap.all = q.all := by simp [all, swap, h]

theorem all_of_batch {q : TaskQueue F} {f : F} {fs : List F} (h : q.batch = f :: fs) :
    q.all = f :: ({ q with batch := fs } : TaskQueue F).all := by simp [all, h]

end TaskQueue
