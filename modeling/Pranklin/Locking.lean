import Mathlib.Algebra.Order.BigOperators.Group.Finset
import Mathlib.Data.Fintype.Basic
import Mathlib.Data.Finset.Max
import Mathlib.Data.List.Nodup
import Mathlib.Logic.Function.Basic
import Mathlib.Logic.Relation
import Mathlib.Tactic.Common

namespace Pranklin.Locking

-- Cells of data, each behind a lock that readers share and a writer has alone.
inductive Mode where
  | read
  | write
deriving DecidableEq

section Programs
variable {κ : Type}

abbrev Store (V : κ → Type) := (cell : κ) → V cell

-- A step on the cells and on what a task has noted: it writes few cells, and what it writes and
-- notes depends on few.
structure Act (V : κ → Type) (L : Type) where
  uses : List κ
  writes : List κ
  run : L → Store V → L × Store V
  frame : ∀ note store cell, cell ∉ writes → (run note store).2 cell = store cell
  blind : ∀ note one other, (∀ cell ∈ uses, one cell = other cell) →
    (run note one).1 = (run note other).1 ∧ ∀ cell ∈ writes, (run note one).2 cell = (run note other).2 cell

section Acts
variable {V : κ → Type} {L : Type}

def Act.think (f : L → L) : Act V L := ⟨[],[],fun note store => (f note,store),fun _ _ _ _ => rfl,fun _ _ _ _ => ⟨rfl,by simp⟩⟩

def Act.peek (cell : κ) (f : L → V cell → L) : Act V L where
  uses := [cell]
  writes := []
  run note store := (f note (store cell),store)
  frame _ _ _ _ := rfl
  blind note one other same := ⟨congrArg (f note) (same cell (by simp)),by simp⟩

def Act.alter [DecidableEq κ] (cell : κ) (f : L → V cell → L × V cell) : Act V L where
  uses := [cell]
  writes := [cell]
  run note store := ((f note (store cell)).1,Function.update store cell (f note (store cell)).2)
  frame note store other outside := Function.update_of_ne (by simpa using outside) _ _
  blind note one other same := by
    have alike := same cell (by simp)
    simp [alike]

end Acts

inductive Op (V : κ → Type) (L : Type) where
  | acquire (cell : κ) (mode : Mode)
  | act (act : Act V L)
  | release (cell : κ)

variable {V : κ → Type} {L : Type}

def acts : List (Op V L) → List (Act V L)
  | [] => []
  | .act act :: rest => act :: acts rest
  | _ :: rest => acts rest

@[simp] theorem acts_append (front back : List (Op V L)) : acts (front ++ back) = acts front ++ acts back := by
  induction front with
  | nil => rfl
  | cons op rest ih => cases op <;> simp [acts,ih]

@[simp] theorem acts_map (deeds : List (Act V L)) : acts (deeds.map Op.act) = deeds := by
  induction deeds with
  | nil => rfl
  | cons deed rest ih => simp [acts,ih]

def perform (past : List (Act V L)) (place : L × Store V) : L × Store V :=
  past.foldl (fun place act => act.run place.1 place.2) place

section Perform
variable {past : List (Act V L)} {held : κ → Option Mode}

def Covered (held : κ → Option Mode) (past : List (Act V L)) : Prop :=
  ∀ act ∈ past, (∀ cell ∈ act.uses, held cell ≠ none) ∧ ∀ cell ∈ act.writes, held cell = some .write

theorem perform_append (front back : List (Act V L)) (place : L × Store V) :
    perform (front ++ back) place = perform back (perform front place) := List.foldl_append

theorem perform_frame (covered : Covered held past) {cell : κ} (outside : held cell ≠ some .write) (place : L × Store V) :
    (perform past place).2 cell = place.2 cell := by
  induction past generalizing place with
  | nil => rfl
  | cons act rest ih =>
    obtain ⟨first,later⟩ := List.forall_mem_cons.mp covered
    exact (ih later _).trans (act.frame _ _ _ fun inside => outside (first.2 cell inside))

theorem act_blind {act : Act V L} (covered : (∀ cell ∈ act.uses, held cell ≠ none) ∧ ∀ cell ∈ act.writes, held cell = some .write)
    (note : L) {one other : Store V} (same : ∀ cell, held cell ≠ none → one cell = other cell) :
    (act.run note one).1 = (act.run note other).1 ∧
      ∀ cell, held cell ≠ none → (act.run note one).2 cell = (act.run note other).2 cell := by
  obtain ⟨noted,written⟩ := act.blind note one other fun cell inside => same cell (covered.1 cell inside)
  refine ⟨noted,fun cell locked => ?_⟩
  by_cases inside : cell ∈ act.writes
  · exact written cell inside
  · rw [act.frame _ _ _ inside,act.frame _ _ _ inside]
    exact same cell locked

theorem perform_blind (covered : Covered held past) {one other : L × Store V} (noted : one.1 = other.1)
    (same : ∀ cell, held cell ≠ none → one.2 cell = other.2 cell) :
    (perform past one).1 = (perform past other).1 ∧
      ∀ cell, held cell ≠ none → (perform past one).2 cell = (perform past other).2 cell := by
  induction past generalizing one other with
  | nil => exact ⟨noted,same⟩
  | cons act rest ih =>
    obtain ⟨first,later⟩ := List.forall_mem_cons.mp covered
    obtain ⟨next,alike⟩ := act_blind first one.1 same
    have next : (act.run one.1 one.2).1 = (act.run other.1 other.2).1 := by rw [next,noted]
    exact ih later next fun cell locked => by rw [alike cell locked,noted]

end Perform

variable [DecidableEq κ]

-- Locks are taken in the order of their ranks, an act touches what is locked for it, and after
-- the first act no lock is given up before the last.
def Sound (rank : κ → Nat) (held : κ → Option Mode) (begun : Prop) : List (Op V L) → Prop
  | [] => ∀ cell, held cell = none
  | .acquire cell mode :: rest => (∀ other, held other ≠ none → rank other < rank cell) ∧
      Sound rank (Function.update held cell (some mode)) begun rest
  | .act act :: rest => (∀ cell ∈ act.uses, held cell ≠ none) ∧ (∀ cell ∈ act.writes, held cell = some .write) ∧
      Sound rank held True rest
  | .release cell :: rest => held cell ≠ none ∧ (begun → acts rest = []) ∧
      Sound rank (Function.update held cell none) begun rest

theorem Sound.weaken {rank : κ → Nat} {held : κ → Option Mode} {begun less : Prop} {todo : List (Op V L)}
    (sound : Sound rank held begun todo) (fewer : less → begun) : Sound rank held less todo := by
  induction todo generalizing held with
  | nil => exact sound
  | cons op rest ih =>
    cases op with
    | acquire cell mode => exact ⟨sound.1,ih sound.2⟩
    | act act => exact sound
    | release cell => exact ⟨sound.1,fun less => sound.2.1 (fewer less),ih sound.2.2⟩

theorem Sound.after_acts {rank : κ → Nat} {held : κ → Option Mode} {begun : Prop} {deeds : List (Act V L)} {todo : List (Op V L)}
    (covered : Covered held deeds) (sound : Sound rank held True todo) : Sound rank held begun (deeds.map Op.act ++ todo) := by
  induction deeds generalizing begun with
  | nil => exact sound.weaken fun _ => trivial
  | cons deed rest ih =>
    obtain ⟨first,later⟩ := List.forall_mem_cons.mp covered
    exact ⟨first.1,first.2,ih later⟩

end Programs

structure Task {κ : Type} (V : κ → Type) (L : Type) where
  todo : List (Op V L)
  held : κ → Option Mode
  note : L

-- Who waits for a lock stands in its queue, and only its head is let in.
structure System (ι : Type) {κ : Type} (V : κ → Type) (L : Type) where
  tasks : ι → Task V L
  queue : κ → List ι
  store : Store V

section Systems
variable {ι κ : Type} {V : κ → Type} {L : Type} {rank : κ → Nat}

namespace System

def begin (program : ι → List (Op V L)) (note : ι → L) (store : Store V) : System ι V L :=
  ⟨fun i => ⟨program i,fun _ => none,note i⟩,fun _ => [],store⟩

def Free (s : System ι V L) (cell : κ) : Mode → Prop
  | .read => ∀ i, (s.tasks i).held cell ≠ some .write
  | .write => ∀ i, (s.tasks i).held cell = none

def Done (s : System ι V L) : Prop := ∀ i, (s.tasks i).todo = []

section Updates
variable [DecidableEq ι] [DecidableEq κ] (s : System ι V L) (i j : ι) (task : Task V L) (cell other : κ) (waiting : List ι)

def setTask : System ι V L := {s with tasks:=Function.update s.tasks i task}
def setQueue : System ι V L := {s with queue:=Function.update s.queue cell waiting}

omit [DecidableEq κ] in
@[simp] theorem setTask_tasks : (s.setTask i task).tasks j = if j = i then task else s.tasks j :=
  Function.update_apply s.tasks i task j

omit [DecidableEq κ] in
@[simp] theorem setTask_queue : (s.setTask i task).queue = s.queue := rfl

omit [DecidableEq κ] in
@[simp] theorem setTask_store : (s.setTask i task).store = s.store := rfl

omit [DecidableEq ι] in
@[simp] theorem setQueue_tasks : (s.setQueue cell waiting).tasks = s.tasks := rfl

omit [DecidableEq ι] in
@[simp] theorem setQueue_queue : (s.setQueue cell waiting).queue other = if other = cell then waiting else s.queue other :=
  Function.update_apply s.queue cell waiting other

omit [DecidableEq ι] in
@[simp] theorem setQueue_store : (s.setQueue cell waiting).store = s.store := rfl

end Updates
end System

def Task.onHeld [DecidableEq κ] (task : Task V L) (rest : List (Op V L)) (cell : κ) (mode : Option Mode) : Task V L :=
  {task with todo:=rest,held:=Function.update task.held cell mode}

@[simp] theorem Task.onHeld_todo [DecidableEq κ] (task : Task V L) (rest : List (Op V L)) (cell : κ) (mode : Option Mode) :
    (task.onHeld rest cell mode).todo = rest := rfl

@[simp] theorem Task.onHeld_note [DecidableEq κ] (task : Task V L) (rest : List (Op V L)) (cell : κ) (mode : Option Mode) :
    (task.onHeld rest cell mode).note = task.note := rfl

@[simp] theorem Task.onHeld_held [DecidableEq κ] (task : Task V L) (rest : List (Op V L)) (cell other : κ) (mode : Option Mode) :
    (task.onHeld rest cell mode).held other = if other = cell then mode else task.held other :=
  Function.update_apply task.held cell mode other

structure Task.Fit [DecidableEq κ] (rank : κ → Nat) (program : List (Op V L)) (task : Task V L) : Prop where
  whole : acts task.todo <:+ acts program
  sound : Sound rank task.held (acts task.todo ≠ acts program) task.todo

structure Orderly [DecidableEq κ] (rank : κ → Nat) (program : ι → List (Op V L)) (s : System ι V L) : Prop where
  fit : ∀ i, (s.tasks i).Fit rank (program i)
  exclusive : ∀ i j cell, (s.tasks i).held cell = some .write → (s.tasks j).held cell ≠ none → i = j
  queued : ∀ cell, ∀ i ∈ s.queue cell, ∃ mode rest, (s.tasks i).todo = .acquire cell mode :: rest
  once : ∀ cell, (s.queue cell).Nodup

def serial (program : ι → List (Op V L)) (note : ι → L) (store : Store V) (order : List ι) : Store V :=
  order.foldl (fun store i => (perform (acts (program i)) (note i,store)).2) store

-- The order of the tasks by their last acts explains what is stored and noted: what no task is at work
-- on is what those leave that have done their acts, and one that is at work has started from there.
structure Explains (program : ι → List (Op V L)) (note : ι → L) (store : Store V) (s : System ι V L) (order : List ι) :
    Prop where
  distinct : order.Nodup
  settled : ∀ i, i ∈ order ↔ acts (s.tasks i).todo = []
  answers : ∀ front i back, order = front ++ i :: back →
    (s.tasks i).note = (perform (acts (program i)) (note i,serial program note store front)).1
  stored : ∀ cell, (∀ i, acts (s.tasks i).todo ≠ [] → (s.tasks i).held cell ≠ some .write) →
    s.store cell = serial program note store order cell
  working : ∀ i, acts (s.tasks i).todo ≠ [] → ∃ past, acts (program i) = past ++ acts (s.tasks i).todo ∧
    Covered (s.tasks i).held past ∧ (s.tasks i).note = (perform past (note i,serial program note store order)).1 ∧
    ∀ cell, (s.tasks i).held cell ≠ none → s.store cell = (perform past (note i,serial program note store order)).2 cell

section Steps
variable [DecidableEq ι] [DecidableEq κ]

inductive Step : System ι V L → System ι V L → Prop where
  | ask {i : ι} {cell : κ} {mode : Mode} {rest : List (Op V L)}
      (ahead : (s.tasks i).todo = .acquire cell mode :: rest) (absent : i ∉ s.queue cell) :
      Step s (s.setQueue cell (s.queue cell ++ [i]))
  | grant {i : ι} {cell : κ} {mode : Mode} {rest : List (Op V L)} {waiting : List ι}
      (ahead : (s.tasks i).todo = .acquire cell mode :: rest) (first : s.queue cell = i :: waiting) (free : s.Free cell mode) :
      Step s ((s.setTask i ((s.tasks i).onHeld rest cell (some mode))).setQueue cell waiting)
  | act {i : ι} {act : Act V L} {rest : List (Op V L)} (ahead : (s.tasks i).todo = .act act :: rest) :
      Step s {s.setTask i {(s.tasks i) with todo:=rest,note:=(act.run (s.tasks i).note s.store).1} with
        store:=(act.run (s.tasks i).note s.store).2}
  | release {i : ι} {cell : κ} {rest : List (Op V L)} (ahead : (s.tasks i).todo = .release cell :: rest) :
      Step s (s.setTask i ((s.tasks i).onHeld rest cell none))

variable {program : ι → List (Op V L)} {note : ι → L} {store : Store V} {s next : System ι V L} {order : List ι}

omit [DecidableEq κ] in
theorem System.forall_setTask {P : ι → Task V L → Prop} {i : ι} {task : Task V L} (own : P i task)
    (others : ∀ j ≠ i, P j (s.tasks j)) : ∀ j, P j ((s.setTask i task).tasks j) := by
  intro j
  by_cases same : j = i
  · subst same
    simpa using own
  · simpa [same] using others j same

omit [DecidableEq ι] in
theorem orderly_begin (sound : ∀ i, Sound rank (fun _ => none) False (program i)) :
    Orderly rank program (System.begin program note store) where
  fit i := ⟨List.suffix_refl _,(sound i).weaken fun apart => apart rfl⟩
  exclusive i j cell locked := by cases locked
  queued cell i inside := by cases inside
  once cell := List.nodup_nil

theorem Orderly.queued_others (orderly : Orderly rank program s) {i : ι} {cell : κ} {task : Task V L}
    (leaves : ∀ other mode rest, (s.tasks i).todo = .acquire other mode :: rest → i ∈ s.queue other → other = cell) :
    ∀ other, other ≠ cell → ∀ j ∈ s.queue other, ∃ mode rest, ((s.setTask i task).tasks j).todo = .acquire other mode :: rest := by
  intro other apart j inside
  obtain ⟨mode,rest,ahead⟩ := orderly.queued other j inside
  have elsewhere : j ≠ i := by
    rintro rfl
    exact apart (leaves other mode rest ahead inside)
  exact ⟨mode,rest,by simpa [elsewhere] using ahead⟩

omit [DecidableEq ι] in
theorem Orderly.ask (orderly : Orderly rank program s) (ahead : (s.tasks i).todo = .acquire cell mode :: rest)
    (absent : i ∉ s.queue cell) : Orderly rank program (s.setQueue cell (s.queue cell ++ [i])) := by
  refine ⟨orderly.fit,orderly.exclusive,fun other j => ?_,fun other => ?_⟩
  all_goals
    have waits := orderly.queued other
    have once := orderly.once other
    by_cases same : other = cell
  · subst same
    simp only [System.setQueue_queue,if_true,List.mem_append,List.mem_singleton]
    rintro (inside | rfl)
    · exact waits j inside
    · exact ⟨mode,rest,ahead⟩
  · simpa [same] using waits j
  · subst same
    simpa [List.nodup_append] using ⟨once,fun j inside equal => absent (equal ▸ inside)⟩
  · simpa [same] using once

theorem Orderly.grant (orderly : Orderly rank program s) (ahead : (s.tasks i).todo = .acquire cell mode :: rest)
    (first : s.queue cell = i :: waiting) (free : s.Free cell mode) :
    Orderly rank program ((s.setTask i ((s.tasks i).onHeld rest cell (some mode))).setQueue cell waiting) := by
  obtain ⟨whole,sound⟩ := orderly.fit i
  have once := orderly.once cell
  rw [ahead] at whole sound
  rw [first] at once
  refine ⟨System.forall_setTask (P:=fun j task => task.Fit rank (program j)) ⟨whole,sound.2⟩ fun j _ => orderly.fit j,?_,?_,?_⟩
  · -- A writer comes in alone, a reader to no writer.
    intro j k other write locked
    simp only [System.setQueue_tasks,System.setTask_tasks] at write locked
    by_cases entered : other = cell
    · subst entered
      cases mode with
      | read =>
        have reader : ∀ l, (if l = i then (s.tasks i).onHeld rest other (some .read) else s.tasks l).held other ≠ some .write := by
          intro l
          by_cases mine : l = i <;> simp [mine,free l]
        exact absurd write (reader j)
      | write =>
        have mine : ∀ l, (if l = i then (s.tasks i).onHeld rest other (some .write) else s.tasks l).held other ≠ none → l = i := by
          intro l locked
          by_contra apart
          rw [if_neg apart] at locked
          exact locked (free l)
        rw [mine j (by simp [write]),mine k locked]
    · have kept : ∀ l, (if l = i then (s.tasks i).onHeld rest cell (some mode) else s.tasks l).held other = (s.tasks l).held other := by
        intro l
        by_cases mine : l = i <;> simp [mine,entered]
      rw [kept] at write locked
      exact orderly.exclusive j k other write locked
  · intro other j inside
    by_cases same : other = cell
    · subst same
      simp only [System.setQueue_queue,if_true] at inside
      have apart : j ≠ i := fun equal => (List.nodup_cons.mp once).1 (equal ▸ inside)
      simpa [apart] using orderly.queued other j (by simp [first,inside])
    · refine orderly.queued_others (fun other' mode' rest' ahead' _ => ?_) other same j (by simpa [same] using inside)
      rw [ahead] at ahead'
      cases ahead'
      rfl
  · intro other
    by_cases same : other = cell
    · subst same
      simpa using (List.nodup_cons.mp once).2
    · simpa [same] using orderly.once other

theorem Orderly.queued_setTask (orderly : Orderly rank program s) {i : ι} {task : Task V L}
    (busy : ∀ cell mode rest, (s.tasks i).todo ≠ .acquire cell mode :: rest) :
    ∀ cell, ∀ j ∈ s.queue cell, ∃ mode rest, ((s.setTask i task).tasks j).todo = .acquire cell mode :: rest := by
  intro cell j inside
  obtain ⟨mode,rest,ahead⟩ := orderly.queued cell j inside
  have elsewhere : j ≠ i := by
    rintro rfl
    exact busy cell mode rest ahead
  exact ⟨mode,rest,by simpa [elsewhere] using ahead⟩

theorem Orderly.act (orderly : Orderly rank program s) (ahead : (s.tasks i).todo = .act deed :: rest) (noted : L)
    (stored : Store V) :
    Orderly rank program {s.setTask i {(s.tasks i) with todo:=rest,note:=noted} with store:=stored} := by
  obtain ⟨whole,sound⟩ := orderly.fit i
  rw [ahead] at whole sound
  refine ⟨System.forall_setTask (P:=fun j task => task.Fit rank (program j))
    ⟨(List.suffix_cons deed (acts rest)).trans whole,sound.2.2.weaken fun _ => trivial⟩ fun j _ => orderly.fit j,?_,?_,orderly.once⟩
  · have kept : ∀ l other, ((s.setTask i {(s.tasks i) with todo:=rest,note:=noted}).tasks l).held other =
        (s.tasks l).held other := by
      intro l other
      by_cases mine : l = i <;> simp [mine]
    intro j k other write locked
    rw [kept] at write locked
    exact orderly.exclusive j k other write locked
  · exact orderly.queued_setTask fun cell mode more acquires => by rw [ahead] at acquires; cases acquires

theorem Orderly.release (orderly : Orderly rank program s) (ahead : (s.tasks i).todo = .release cell :: rest) :
    Orderly rank program (s.setTask i ((s.tasks i).onHeld rest cell none)) := by
  obtain ⟨whole,sound⟩ := orderly.fit i
  rw [ahead] at whole sound
  refine ⟨System.forall_setTask (P:=fun j task => task.Fit rank (program j)) ⟨whole,sound.2.2⟩ fun j _ => orderly.fit j,
    ?_,?_,orderly.once⟩
  · have fewer : ∀ l other mode, ((s.setTask i ((s.tasks i).onHeld rest cell none)).tasks l).held other = some mode →
        (s.tasks l).held other = some mode := by
      intro l other mode
      by_cases mine : l = i <;> by_cases given : other = cell <;> simp [mine,given]
    intro j k other write locked
    obtain ⟨mode,holds⟩ := Option.ne_none_iff_exists'.mp locked
    exact orderly.exclusive j k other (fewer j other .write write) (by simp [fewer k other mode holds])
  · exact orderly.queued_setTask fun cell mode more acquires => by rw [ahead] at acquires; cases acquires

theorem Orderly.step (orderly : Orderly rank program s) (step : Step s next) : Orderly rank program next := by
  cases step with
  | ask ahead absent => exact orderly.ask ahead absent
  | grant ahead first free => exact orderly.grant ahead first free
  | act ahead => exact orderly.act ahead _ _
  | release ahead => exact orderly.release ahead

omit [DecidableEq ι] [DecidableEq κ] in
theorem serial_append (order more : List ι) :
    serial program note store (order ++ more) = serial program note (serial program note store order) more := List.foldl_append

omit [DecidableEq ι] [DecidableEq κ] in
theorem explains_begin (works : ∀ i, acts (program i) ≠ []) :
    Explains program note store (System.begin program note store) [] where
  distinct := .nil
  settled i := by simpa [System.begin] using works i
  answers front i back none := by simp at none
  stored cell _ := rfl
  working i _ := ⟨[],rfl,by simp [Covered],rfl,fun cell locked => absurd rfl locked⟩

omit [DecidableEq ι] [DecidableEq κ] in
theorem Explains.relocked (explains : Explains program note store s order) (store_same : next.store = s.store)
    (same : ∀ j, acts (next.tasks j).todo = acts (s.tasks j).todo ∧ (next.tasks j).note = (s.tasks j).note)
    (stored : ∀ cell, (∀ j, acts (s.tasks j).todo ≠ [] → (next.tasks j).held cell ≠ some .write) →
      s.store cell = serial program note store order cell)
    (working : ∀ j past, acts (s.tasks j).todo ≠ [] → acts (program j) = past ++ acts (s.tasks j).todo →
      Covered (s.tasks j).held past →
      (∀ cell, (s.tasks j).held cell ≠ none → s.store cell = (perform past (note j,serial program note store order)).2 cell) →
      Covered (next.tasks j).held past ∧ ∀ cell, (next.tasks j).held cell ≠ none →
        s.store cell = (perform past (note j,serial program note store order)).2 cell) :
    Explains program note store next order where
  distinct := explains.distinct
  settled j := by rw [(same j).1]; exact explains.settled j
  answers front j back listed := (same j).2.trans (explains.answers front j back listed)
  stored cell free := by
    rw [store_same]
    exact stored cell fun j => (same j).1 ▸ free j
  working j begun := by
    rw [(same j).1] at begun ⊢
    obtain ⟨past,split,covered,noted,agree⟩ := explains.working j begun
    obtain ⟨covered,agree⟩ := working j past begun split covered agree
    exact ⟨past,split,covered,(same j).2.trans noted,fun cell locked => by rw [store_same]; exact agree cell locked⟩

theorem Explains.grant (explains : Explains program note store s order) (orderly : Orderly rank program s)
    (ahead : (s.tasks i).todo = .acquire cell mode :: rest) (free : s.Free cell mode) :
    Explains program note store ((s.setTask i ((s.tasks i).onHeld rest cell (some mode))).setQueue cell waiting) order := by
  obtain ⟨_,sound⟩ := orderly.fit i
  rw [ahead] at sound
  have vacant : (s.tasks i).held cell = none := by
    by_contra locked
    exact absurd (sound.1 cell locked) (Nat.lt_irrefl _)
  have lone : ∀ j, (s.tasks j).held cell ≠ some .write := by
    intro j
    cases mode with
    | read => exact free j
    | write => simp [free j]
  have unlocked : s.store cell = serial program note store order cell := explains.stored cell fun j _ => lone j
  refine explains.relocked rfl (fun j => ?_) (fun other idle => ?_) fun j past begun split covered agree => ?_
  · by_cases same : j = i
    · subst same
      simp [ahead,acts]
    · simp [same]
  · refine explains.stored other fun j begun => ?_
    have kept := idle j begun
    by_cases same : j = i
    · subst same
      by_cases entered : other = cell
      · subst entered
        exact lone j
      · simpa [entered] using kept
    · simpa [same] using kept
  · by_cases same : j = i
    · subst same
      have apart : ∀ other, (s.tasks j).held other ≠ none → other ≠ cell := by
        rintro other locked rfl
        exact locked vacant
      constructor
      · intro deed inside
        obtain ⟨uses,writes⟩ := covered deed inside
        refine ⟨fun other used => ?_,fun other written => ?_⟩
        · simpa [apart other (uses other used)] using uses other used
        · simpa [apart other (by simp [writes other written])] using writes other written
      · intro other locked
        by_cases entered : other = cell
        · subst entered
          rw [perform_frame covered (lone j)]
          exact unlocked
        · exact agree other (by simpa [entered] using locked)
    · simpa [same] using ⟨covered,agree⟩

theorem Explains.release (explains : Explains program note store s order) (orderly : Orderly rank program s)
    (ahead : (s.tasks i).todo = .release cell :: rest) :
    Explains program note store (s.setTask i ((s.tasks i).onHeld rest cell none)) order := by
  obtain ⟨whole,sound⟩ := orderly.fit i
  rw [ahead] at sound
  -- A task at work gives nothing up once it has acted.
  have idle : ∀ past, acts (s.tasks i).todo ≠ [] → acts (program i) = past ++ acts (s.tasks i).todo → past = [] := by
    intro past begun split
    by_contra some
    rw [ahead] at begun split
    refine begun (sound.2.1 fun same => some ?_)
    rw [← same] at split
    simpa using split
  refine explains.relocked rfl (fun j => ?_) (fun other free => ?_) fun j past begun split covered agree => ?_
  · by_cases same : j = i
    · subst same
      simp [ahead,acts]
    · simp [same]
  · by_cases given : acts (s.tasks i).todo ≠ [] ∧ other = cell
    · obtain ⟨begun,rfl⟩ := given
      obtain ⟨past,split,_,_,agree⟩ := explains.working i begun
      obtain rfl := idle past begun split
      exact agree other sound.1
    · refine explains.stored other fun j begun => ?_
      have kept := free j begun
      by_cases same : j = i
      · subst same
        have apart : other ≠ cell := fun equal => given ⟨begun,equal⟩
        simpa [apart] using kept
      · simpa [same] using kept
  · by_cases same : j = i
    · subst same
      obtain rfl := idle past begun split
      refine ⟨by simp [Covered],fun other locked => agree other ?_⟩
      by_cases given : other = cell
      · simp [given] at locked
      · simpa [given] using locked
    · simpa [same] using ⟨covered,agree⟩

omit [DecidableEq ι] in
theorem Explains.acted (explains : Explains program note store s order) (orderly : Orderly rank program s)
    (ahead : (s.tasks i).todo = .act deed :: rest) :
    ∃ past, acts (program i) = (past ++ [deed]) ++ acts rest ∧ Covered (s.tasks i).held (past ++ [deed]) ∧
      (deed.run (s.tasks i).note s.store).1 = (perform (past ++ [deed]) (note i,serial program note store order)).1 ∧
      ∀ cell, (s.tasks i).held cell ≠ none → (deed.run (s.tasks i).note s.store).2 cell =
        (perform (past ++ [deed]) (note i,serial program note store order)).2 cell := by
  obtain ⟨_,sound⟩ := orderly.fit i
  obtain ⟨past,split,covered,noted,agree⟩ := explains.working i (by simp [ahead,acts])
  rw [ahead] at sound split
  obtain ⟨next,alike⟩ := act_blind ⟨sound.1,sound.2.1⟩ (s.tasks i).note agree
  rw [noted] at next alike
  refine ⟨past,by simpa [acts] using split,?_,?_,fun cell locked => ?_⟩
  · exact List.forall_mem_append.mpr ⟨covered,by simpa using ⟨sound.1,sound.2.1⟩⟩
  · rw [perform_append,noted]
    exact next
  · rw [perform_append,noted]
    exact alike cell locked

omit [DecidableEq ι] in
theorem Explains.others (explains : Explains program note store s order) (orderly : Orderly rank program s)
    {other : Store V} {i j : ι} (apart : j ≠ i)
    (kept : ∀ cell, (s.tasks i).held cell ≠ some .write → other cell = serial program note store order cell)
    (begun : acts (s.tasks j).todo ≠ []) :
    ∃ past, acts (program j) = past ++ acts (s.tasks j).todo ∧ Covered (s.tasks j).held past ∧
      (s.tasks j).note = (perform past (note j,other)).1 ∧
      ∀ cell, (s.tasks j).held cell ≠ none → s.store cell = (perform past (note j,other)).2 cell := by
  obtain ⟨past,split,covered,noted,agree⟩ := explains.working j begun
  have blind : (perform past (note j,other)).1 = (perform past (note j,serial program note store order)).1 ∧
      ∀ cell, (s.tasks j).held cell ≠ none →
        (perform past (note j,other)).2 cell = (perform past (note j,serial program note store order)).2 cell :=
    perform_blind covered rfl fun cell locked => kept cell fun write => apart (orderly.exclusive i j cell write locked).symm
  exact ⟨past,split,covered,noted.trans blind.1.symm,fun cell locked => (agree cell locked).trans (blind.2 cell locked).symm⟩

theorem Explains.act (explains : Explains program note store s order) (orderly : Orderly rank program s)
    (ahead : (s.tasks i).todo = .act deed :: rest) :
    ∃ more, Explains program note store
      {s.setTask i {(s.tasks i) with todo:=rest,note:=(deed.run (s.tasks i).note s.store).1} with
        store:=(deed.run (s.tasks i).note s.store).2} (order ++ more) := by
  obtain ⟨_,sound⟩ := orderly.fit i
  obtain ⟨past,split,covered,noted,agree⟩ := explains.acted orderly ahead
  rw [ahead] at sound
  have begun : acts (s.tasks i).todo ≠ [] := by simp [ahead,acts]
  have fresh : i ∉ order := fun listed => begun ((explains.settled i).mp listed)
  have untouched : ∀ cell, (s.tasks i).held cell ≠ some .write →
      (deed.run (s.tasks i).note s.store).2 cell = s.store cell :=
    fun cell unwritten => deed.frame _ _ _ fun inside => unwritten (sound.2.1 cell inside)
  have foreign : ∀ j cell, j ≠ i → (s.tasks j).held cell ≠ none →
      (deed.run (s.tasks i).note s.store).2 cell = s.store cell :=
    fun j cell apart locked => untouched cell fun write => apart (orderly.exclusive i j cell write locked).symm
  by_cases last : acts rest = []
  case neg =>
    refine ⟨[],?_⟩
    rw [List.append_nil]
    refine ⟨explains.distinct,fun j => ?_,fun front j back listed => ?_,fun cell free => ?_,fun j busy => ?_⟩
    · by_cases same : j = i
      · subst same
        simpa [last] using fresh
      · simpa [same] using explains.settled j
    · have apart : j ≠ i := fun same => fresh (by rw [listed,same]; simp)
      simpa [apart] using explains.answers front j back listed
    · have unwritten : (s.tasks i).held cell ≠ some .write := by simpa using free i (by simpa using last)
      refine (untouched cell unwritten).trans (explains.stored cell fun j busy => ?_)
      by_cases same : j = i
      · rwa [same]
      · simpa [same] using free j (by simpa [same] using busy)
    · by_cases same : j = i
      · subst same
        exact ⟨past ++ [deed],by simpa using split,by simpa using covered,by simpa using noted,by simpa using agree⟩
      · obtain ⟨past,split,covered,noted,agree⟩ := explains.others orderly same (fun _ _ => rfl) (by simpa [same] using busy)
        exact ⟨past,by simpa [same] using split,by simpa [same] using covered,by simpa [same] using noted,fun cell locked => by
          have locked : (s.tasks j).held cell ≠ none := by simpa [same] using locked
          exact (foreign j cell same locked).trans (agree cell locked)⟩
  · rw [last,List.append_nil] at split
    have after : serial program note store (order ++ [i]) =
        (perform (past ++ [deed]) (note i,serial program note store order)).2 := by
      rw [serial_append,← split]
      rfl
    have kept : ∀ cell, (s.tasks i).held cell ≠ some .write →
        serial program note store (order ++ [i]) cell = serial program note store order cell := by
      intro cell unwritten
      rw [after]
      exact perform_frame covered unwritten _
    refine ⟨[i],List.nodup_append.mpr ⟨explains.distinct,List.nodup_singleton i,?_⟩,fun j => ?_,fun front j back listed => ?_,
      fun cell free => ?_,fun j busy => ?_⟩
    · intro j inside k single equal
      rw [List.mem_singleton.mp single] at equal
      exact fresh (equal ▸ inside)
    · by_cases same : j = i
      · subst same
        simpa using last
      · simpa [same] using explains.settled j
    · rcases List.eq_nil_or_concat back with rfl | ⟨init,tail,rfl⟩
      · obtain ⟨rfl,single⟩ := List.append_inj' listed rfl
        obtain rfl : i = j := by simpa using single
        simpa [split] using noted
      · have shorter : order = front ++ j :: init := by
          rw [List.concat_eq_append,← List.cons_append,← List.append_assoc] at listed
          exact (List.append_inj' listed rfl).1
        have apart : j ≠ i := fun same => fresh (by rw [shorter,same]; simp)
        simpa [apart] using explains.answers front j init shorter
    · change (deed.run (s.tasks i).note s.store).2 cell = _
      by_cases mine : (s.tasks i).held cell = none
      · have unwritten : (s.tasks i).held cell ≠ some .write := by simp [mine]
        rw [untouched cell unwritten,kept cell unwritten]
        refine explains.stored cell fun j busy => ?_
        by_cases same : j = i
        · rwa [same]
        · simpa [same] using free j (by simpa [same] using busy)
      · rw [agree cell mine,after]
    · have same : j ≠ i := by
        rintro rfl
        simp [last] at busy
      obtain ⟨past,split,covered,noted,agree⟩ := explains.others orderly same kept (by simpa [same] using busy)
      exact ⟨past,by simpa [same] using split,by simpa [same] using covered,by simpa [same] using noted,fun cell locked => by
        have locked : (s.tasks j).held cell ≠ none := by simpa [same] using locked
        exact (foreign j cell same locked).trans (agree cell locked)⟩

theorem Explains.step (explains : Explains program note store s order) (orderly : Orderly rank program s)
    (step : Step s next) : ∃ more, Explains program note store next (order ++ more) := by
  cases step with
  | ask ahead absent =>
    refine ⟨[],?_⟩
    rw [List.append_nil]
    exact explains.relocked rfl (fun _ => ⟨rfl,rfl⟩) explains.stored fun _ _ _ _ covered agree => ⟨covered,agree⟩
  | grant ahead first free => exact ⟨[],by simpa using explains.grant orderly ahead free⟩
  | act ahead => exact explains.act orderly ahead
  | release ahead => exact ⟨[],by simpa using explains.release orderly ahead⟩

-- Along a run the order only grows, so that it begins with those that had done their acts at any time before.
theorem run_explains (sound : ∀ i, Sound rank (fun _ => none) False (program i)) (works : ∀ i, acts (program i) ≠ [])
    {states : Nat → System ι V L} {n : Nat} (first : states 0 = .begin program note store)
    (steps : ∀ k < n, Step (states k) (states (k + 1))) :
    Orderly rank program (states n) ∧ ∃ order, Explains program note store (states n) order ∧
      ∀ k ≤ n, ∃ finished, finished <+: order ∧ ∀ i, i ∈ finished ↔ acts ((states k).tasks i).todo = [] := by
  induction n with
  | zero =>
    have explains : Explains program note store (states 0) [] := first ▸ explains_begin works
    refine ⟨first ▸ orderly_begin sound,[],explains,fun k below => ⟨[],List.prefix_rfl,?_⟩⟩
    rw [Nat.le_zero.mp below]
    exact explains.settled
  | succ n ih =>
    obtain ⟨orderly,order,explains,initial⟩ := ih fun k below => steps k (Nat.lt_succ_of_lt below)
    have step := steps n (Nat.lt_succ_self n)
    obtain ⟨more,explains⟩ := explains.step orderly step
    refine ⟨orderly.step step,order ++ more,explains,fun k below => ?_⟩
    rcases Nat.le_succ_iff.mp below with below | rfl
    · obtain ⟨finished,front,settled⟩ := initial k below
      exact ⟨finished,front.trans (List.prefix_append _ _),settled⟩
    · exact ⟨_,List.prefix_rfl,explains.settled⟩

-- Whatever is interleaved, what is stored and what every task has noted at the end is so in one order of
-- the tasks, one after another, which begins with those that had done their acts at any time before.
theorem run_serial (sound : ∀ i, Sound rank (fun _ => none) False (program i)) (works : ∀ i, acts (program i) ≠ [])
    {states : Nat → System ι V L} {n : Nat} (first : states 0 = .begin program note store)
    (steps : ∀ k < n, Step (states k) (states (k + 1))) (done : (states n).Done) :
    ∃ order, order.Nodup ∧ (∀ i, i ∈ order) ∧ (states n).store = serial program note store order ∧
      (∀ front i back, order = front ++ i :: back →
        ((states n).tasks i).note = (perform (acts (program i)) (note i,serial program note store front)).1) ∧
      ∀ k ≤ n, ∃ finished, finished <+: order ∧ ∀ i, i ∈ finished ↔ acts ((states k).tasks i).todo = [] := by
  obtain ⟨_,order,explains,initial⟩ := run_explains sound works first steps
  refine ⟨order,explains.distinct,fun i => (explains.settled i).mpr (by simp [done i,acts]),?_,explains.answers,initial⟩
  funext cell
  exact explains.stored cell fun i begun => absurd (by simp [done i,acts]) begun

omit [DecidableEq ι] [DecidableEq κ] in
theorem prefix_before [DecidableEq ι] {finished order : List ι} {i j : ι} (front : finished <+: order) (inside : i ∈ finished)
    (outside : j ∉ finished) : order.idxOf i < order.idxOf j := by
  obtain ⟨more,rfl⟩ := front
  rw [List.idxOf_append_of_mem inside,List.idxOf_append_of_notMem outside]
  exact Nat.lt_add_right _ (List.idxOf_lt_length_of_mem inside)

theorem exists_states (run : Relation.ReflTransGen Step s next) :
    ∃ (states : Nat → System ι V L) (n : Nat), states 0 = s ∧ states n = next ∧ ∀ k < n, Step (states k) (states (k + 1)) := by
  induction run with
  | refl => exact ⟨fun _ => s,0,rfl,rfl,by simp⟩
  | @tail middle last _ step ih =>
    obtain ⟨states,n,first,final,steps⟩ := ih
    refine ⟨fun k => if k ≤ n then states k else last,n + 1,by simpa using first,by simp,fun k below => ?_⟩
    rcases Nat.lt_succ_iff_lt_or_eq.mp below with below | rfl
    · simpa [below.le,Nat.succ_le_of_lt below] using steps k below
    · simpa [final] using step

section Completion
variable [Fintype ι]

-- Of the tasks that wait, take one for a lock of the highest rank: who has that lock waits for a higher one.
theorem Orderly.progress (orderly : Orderly rank program s) (unfinished : ¬s.Done) : ∃ next, Step s next := by
  by_contra stuck
  have waits : ∀ i, (s.tasks i).todo ≠ [] → ∃ cell mode rest, (s.tasks i).todo = .acquire cell mode :: rest ∧ i ∈ s.queue cell := by
    intro i busy
    cases ahead : (s.tasks i).todo with
    | nil => exact absurd ahead busy
    | cons op rest =>
      cases op with
      | acquire cell mode =>
        refine ⟨cell,mode,rest,rfl,?_⟩
        by_contra absent
        exact stuck ⟨_,.ask ahead absent⟩
      | act deed => exact absurd ⟨_,.act ahead⟩ stuck
      | release cell => exact absurd ⟨_,.release ahead⟩ stuck
  have holder : ∀ cell i, i ∈ s.queue cell → ∃ j, (s.tasks j).held cell ≠ none := by
    intro cell i inside
    obtain ⟨first,waiting,queue⟩ := List.exists_cons_of_ne_nil (List.ne_nil_of_mem inside)
    obtain ⟨mode,rest,ahead⟩ := orderly.queued cell first (by simp [queue])
    by_contra nobody
    have vacant : ∀ j, (s.tasks j).held cell = none := fun j => by_contra fun locked => nobody ⟨j,locked⟩
    refine stuck ⟨_,.grant ahead queue ?_⟩
    cases mode with
    | read => exact fun j => by simp [vacant j]
    | write => exact vacant
  let level : ι → Nat := fun i => match (s.tasks i).todo with
    | .acquire cell _ :: _ => rank cell
    | _ => 0
  obtain ⟨start,busy⟩ := not_forall.mp unfinished
  obtain ⟨top,inside,highest⟩ := Finset.exists_max_image (Finset.univ.filter fun i => (s.tasks i).todo ≠ []) level
    ⟨start,by simpa using busy⟩
  obtain ⟨cell,mode,rest,ahead,queued⟩ := waits top (by simpa using inside)
  obtain ⟨j,locked⟩ := holder cell top queued
  have sound := (orderly.fit j).sound
  have busyToo : (s.tasks j).todo ≠ [] := by
    intro none
    rw [none] at sound
    exact locked (sound cell)
  obtain ⟨other,_,_,aheadToo,_⟩ := waits j busyToo
  rw [aheadToo] at sound
  have higher := sound.1 cell locked
  have bound := highest j (by simpa using busyToo)
  simp only [level,ahead,aheadToo] at bound
  omega

-- An acquisition counts twice, once for the asking.
def weigh (queue : κ → List ι) (i : ι) : List (Op V L) → Nat
  | .acquire cell _ :: rest => 2 * rest.length + if i ∈ queue cell then 1 else 2
  | todo => 2 * todo.length

def System.left (s : System ι V L) : Nat := ∑ i, weigh s.queue i (s.tasks i).todo

omit [DecidableEq κ] [Fintype ι] in
theorem weigh_le (queue : κ → List ι) (i : ι) (todo : List (Op V L)) : weigh queue i todo ≤ 2 * todo.length := by
  unfold weigh
  split
  · rw [List.length_cons]
    split <;> omega
  · exact le_rfl

omit [DecidableEq κ] [Fintype ι] in
theorem weigh_congr {queue other : κ → List ι} {i : ι} (same : ∀ cell, i ∈ other cell ↔ i ∈ queue cell) (todo : List (Op V L)) :
    weigh other i todo = weigh queue i todo := by
  unfold weigh
  split
  · simp [same]
  · rfl

theorem step_left (step : Step s next) : next.left < s.left := by
  have lighter : ∃ i, weigh next.queue i (next.tasks i).todo < weigh s.queue i (s.tasks i).todo ∧
      ∀ j ≠ i, weigh next.queue j (next.tasks j).todo = weigh s.queue j (s.tasks j).todo := by
    cases step with
    | @ask i cell mode rest ahead absent =>
      refine ⟨i,by simp [ahead,absent,weigh],fun j apart => ?_⟩
      refine weigh_congr (fun other => ?_) _
      by_cases same : other = cell
      · subst same
        simp [apart]
      · simp [same]
    | @grant i cell mode rest waiting ahead first free =>
      refine ⟨i,?_,fun j apart => ?_⟩
      · have after := weigh_le (Function.update s.queue cell waiting) i rest
        simp only [System.setQueue_tasks,System.setTask_tasks,if_true,Task.onHeld_todo]
        rw [ahead]
        simp only [weigh,first,List.mem_cons,true_or,if_true]
        exact Nat.lt_succ_of_le after
      · simp only [System.setQueue_tasks,System.setTask_tasks,if_neg apart]
        refine weigh_congr (fun other => ?_) _
        by_cases same : other = cell
        · subst same
          simp [first,apart]
        · simp [same]
    | @act i deed rest ahead =>
      refine ⟨i,?_,fun j apart => by simp [apart]⟩
      have after := weigh_le s.queue i rest
      simp only [System.setTask_tasks,System.setTask_queue,if_true,ahead]
      change weigh s.queue i rest < 2 * (rest.length + 1)
      omega
    | @release i cell rest ahead =>
      refine ⟨i,?_,fun j apart => by simp [apart]⟩
      have after := weigh_le s.queue i rest
      simp only [System.setTask_tasks,System.setTask_queue,if_true,ahead,Task.onHeld_todo]
      change weigh s.queue i rest < 2 * (rest.length + 1)
      omega
  obtain ⟨i,less,others⟩ := lighter
  refine Finset.sum_lt_sum (fun j _ => ?_) ⟨i,Finset.mem_univ i,less⟩
  by_cases same : j = i
  · rw [same]
    exact less.le
  · exact (others j same).le

theorem run_bounded {states : Nat → System ι V L} {n : Nat} (steps : ∀ k < n, Step (states k) (states (k + 1))) :
    n + (states n).left ≤ (states 0).left := by
  induction n with
  | zero => simp
  | succ n ih =>
    have before := ih fun k below => steps k (Nat.lt_succ_of_lt below)
    have last := step_left (steps n (Nat.lt_succ_self n))
    omega

omit [DecidableEq κ] in
theorem left_begin : (System.begin program note store).left ≤ ∑ i, 2 * (program i).length :=
  Finset.sum_le_sum fun i _ => weigh_le _ i _

theorem Orderly.finishes (orderly : Orderly rank program s) :
    ∃ next, Relation.ReflTransGen Step s next ∧ next.Done := by
  induction fuel : s.left using Nat.strong_induction_on generalizing s with
  | _ fuel ih =>
    by_cases done : s.Done
    · exact ⟨s,.refl,done⟩
    · obtain ⟨middle,step⟩ := orderly.progress done
      obtain ⟨next,run,done⟩ := ih middle.left (fuel ▸ step_left step) (orderly.step step) rfl
      exact ⟨next,.head step run,done⟩

end Completion
end Steps
end Systems
end Pranklin.Locking
