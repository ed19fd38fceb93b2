import Mathlib.Logic.Function.Basic
import Concordance.Proofs.Roots.Commit

namespace Concordance

-- A tree that several clients change at a time. A client that tracks a symbol waits with what it
-- has still to ask of the tools, and the others may act between any two of these questions.
structure SharedTree (ι σ : Type) where
  roots : Roots
  tools : σ
  waiting : ι → Option (String × Dialogue (List Node))

-- What a client does with its turn. It asks for nothing new before it has its answer.
inductive Turn where
  | ask (r : Request)
  | proceed
deriving DecidableEq, Repr

-- A request that was answered.
structure Event (ι : Type) where
  client : ι
  request : Request
  answer : Except ToolFailure Response
deriving DecidableEq

namespace SharedTree

variable {ι σ : Type} [DecidableEq ι] (p : Project) (tools : Toolbox σ)

def setWaiting (t : SharedTree ι σ) (client : ι) (call : Option (String × Dialogue (List Node))) :
    SharedTree ι σ :=
  { t with waiting := Function.update t.waiting client call }

def ask (t : SharedTree ι σ) (client : ι) : Request → SharedTree ι σ × List (Event ι)
  | .track symbol => (t.setWaiting client (some (symbol, p.expand (.symbol symbol) true)), [])
  | .untrack n =>
    let u := t.roots.untrack n.key
    ({ t with roots := u.roots }, [⟨client, .untrack n, .ok (.untracked u.value)⟩])
  | .clear => ({ t with roots := Roots.clear.roots }, [⟨client, .clear, .ok .cleared⟩])

-- A client has all that it asked of the tools, or was told that one of them failed.
def finish (t : SharedTree ι σ) (client : ι) (symbol : String)
    (ended : Except ToolFailure (List Node)) : SharedTree ι σ × List (Event ι) :=
  let u := t.roots.settle ended
  ({ t with roots := u.roots }.setWaiting client none,
    [⟨client, .track symbol, u.value.map .tracked⟩])

-- One step towards the answer. The roots are not looked at before all is asked, and then as
-- they are by that time.
def proceed (t : SharedTree ι σ) (client : ι) (symbol : String) :
    Dialogue (List Node) → SharedTree ι σ × List (Event ι)
  | .run call next =>
    let (reply, s) := tools.run call t.tools
    ({ t with tools := s }.setWaiting client (some (symbol, next reply)), [])
  | .list call next =>
    let (reply, s) := tools.list call t.tools
    ({ t with tools := s }.setWaiting client (some (symbol, next reply)), [])
  | .warn _ next => (t.setWaiting client (some (symbol, next)), [])
  | .failed failure => t.finish client symbol (.error failure)
  | .done nodes => t.finish client symbol (.ok nodes)

def act (t : SharedTree ι σ) (client : ι) (turn : Turn) : SharedTree ι σ × List (Event ι) :=
  match t.waiting client, turn with
  | none, .ask r => t.ask p client r
  | some (symbol, d), .proceed => t.proceed tools client symbol d
  | none, .proceed => (t, [])
  | some _, .ask _ => (t, [])

-- The turns of a schedule one after another, with the answers in the order in which they came.
def run (t : SharedTree ι σ) : List (ι × Turn) → SharedTree ι σ × List (Event ι)
  | [] => (t, [])
  | (client, turn) :: schedule =>
    let (t', events) := t.act p tools client turn
    let (t'', later) := t'.run schedule
    (t'', events ++ later)

end SharedTree

-- What an answered request makes of the roots that it meets.
inductive Commit {ι : Type} : Roots → Event ι → Roots → Prop
  | failed {roots : Roots} {client : ι} {symbol : String} {failure : ToolFailure} :
      Commit roots ⟨client, .track symbol, .error failure⟩ roots
  | nothing {roots : Roots} {client : ι} {symbol : String} :
      Commit roots ⟨client, .track symbol, .ok (.tracked .noReferences)⟩ roots
  | known {roots : Roots} {client : ι} {symbol : String} :
      Commit roots ⟨client, .track symbol, .ok (.tracked .alreadyTracked)⟩ roots
  | added {roots : Roots} {client : ι} {symbol : String} {nodes : List Node} (hne : nodes ≠ [])
      (hnew : ∀ n ∈ nodes, n.key ∉ roots.map Node.key) :
      Commit roots ⟨client, .track symbol, .ok (.tracked (.added nodes))⟩ (nodes ++ roots)
  | untracked {roots : Roots} {client : ι} {n : Node} {count : Nat}
      (hcount : count + (roots.filter fun m => m.key ≠ n.key).length = roots.length) :
      Commit roots ⟨client, .untrack n, .ok (.untracked count)⟩
        (roots.filter fun m => m.key ≠ n.key)
  | cleared {roots : Roots} {client : ι} : Commit roots ⟨client, .clear, .ok .cleared⟩ []

-- Answered requests one after another, each with the roots that the ones before it left.
inductive Commits {ι : Type} : Roots → List (Event ι) → Roots → Prop
  | nil (roots : Roots) : Commits roots [] roots
  | cons {roots middle roots' : Roots} {e : Event ι} {events : List (Event ι)}
      (first : Commit roots e middle) (rest : Commits middle events roots') :
      Commits roots (e :: events) roots'

variable {ι σ : Type}

theorem Commits.singleton {roots roots' : Roots} {e : Event ι} (h : Commit roots e roots') :
    Commits roots [e] roots' := .cons h (.nil roots')

theorem commits_append_iff {roots roots' : Roots} {first second : List (Event ι)} :
    Commits roots (first ++ second) roots' ↔
      ∃ middle, Commits roots first middle ∧ Commits middle second roots' := by
  constructor
  · intro h
    induction first generalizing roots with
    | nil => exact ⟨roots, .nil roots, h⟩
    | cons e first ih =>
      cases h with
      | cons hfirst hrest =>
        obtain ⟨middle, hbefore, hafter⟩ := ih hrest
        exact ⟨middle, .cons hfirst hbefore, hafter⟩
  · rintro ⟨middle, hbefore, hafter⟩
    induction hbefore with
    | nil => exact hafter
    | cons hfirst _ ih => exact .cons hfirst (ih hafter)

theorem Roots.commit_commit (roots : Roots) (nodes : List Node) (client : ι) (symbol : String) :
    Commit roots ⟨client, .track symbol, .ok (.tracked (roots.commit nodes).value)⟩
      (roots.commit nodes).roots := by
  by_cases hnodes : nodes = []
  · subst hnodes
    exact .nothing
  · by_cases hfresh : roots.fresh nodes = []
    · rw [commit_of_fresh_nil hnodes hfresh]
      exact .known
    · rw [commit_of_fresh_ne_nil hfresh]
      exact .added hfresh fun n hn => (mem_fresh.mp hn).2

theorem Roots.commit_settle (roots : Roots) (ended : Except ToolFailure (List Node)) (client : ι)
    (symbol : String) :
    Commit roots ⟨client, .track symbol, (roots.settle ended).value.map .tracked⟩
      (roots.settle ended).roots := by
  cases ended with
  | ok nodes => exact roots.commit_commit nodes client symbol
  | error failure => exact .failed

namespace SharedTree

variable [DecidableEq ι] (p : Project) (tools : Toolbox σ)

theorem commits_ask (t : SharedTree ι σ) (client : ι) (r : Request) :
    Commits t.roots (t.ask p client r).2 (t.ask p client r).1.roots := by
  cases r with
  | track symbol => exact .nil t.roots
  | untrack n => exact .singleton (.untracked (Nat.sub_add_cancel (List.length_filter_le _ _)))
  | clear => exact .singleton .cleared

theorem commits_proceed (t : SharedTree ι σ) (client : ι) (symbol : String)
    (d : Dialogue (List Node)) :
    Commits t.roots (t.proceed tools client symbol d).2
      (t.proceed tools client symbol d).1.roots := by
  cases d with
  | done nodes => exact .singleton (t.roots.commit_settle (.ok nodes) client symbol)
  | failed failure => exact .singleton (t.roots.commit_settle (.error failure) client symbol)
  | run call next => exact .nil t.roots
  | list call next => exact .nil t.roots
  | warn notice next => exact .nil t.roots

theorem commits_act (t : SharedTree ι σ) (client : ι) (turn : Turn) :
    Commits t.roots (t.act p tools client turn).2 (t.act p tools client turn).1.roots := by
  unfold act
  split
  · exact t.commits_ask p client _
  · exact t.commits_proceed tools client _ _
  · exact .nil t.roots
  · exact .nil t.roots

-- However the turns of the clients follow one another, the roots are what the answered requests
-- make of them in the order of their answers.
theorem commits_run (t : SharedTree ι σ) (schedule : List (ι × Turn)) :
    Commits t.roots (t.run p tools schedule).2 (t.run p tools schedule).1.roots := by
  induction schedule generalizing t with
  | nil => exact .nil t.roots
  | cons turn schedule ih =>
    obtain ⟨client, turn⟩ := turn
    exact commits_append_iff.mpr ⟨_, t.commits_act p tools client turn, ih _⟩

theorem run_cons (t : SharedTree ι σ) (client : ι) (turn : Turn) (schedule : List (ι × Turn)) :
    t.run p tools ((client, turn) :: schedule) =
      (((t.act p tools client turn).1.run p tools schedule).1,
        (t.act p tools client turn).2 ++
          ((t.act p tools client turn).1.run p tools schedule).2) := rfl

theorem act_proceed {t : SharedTree ι σ} {client : ι} {symbol : String} {d : Dialogue (List Node)}
    (hwaiting : t.waiting client = some (symbol, d)) :
    t.act p tools client .proceed = t.proceed tools client symbol d := by
  unfold act
  rw [hwaiting]

theorem setWaiting_waiting (t : SharedTree ι σ) (client : ι)
    (call : Option (String × Dialogue (List Node))) :
    (t.setWaiting client call).waiting client = call := by
  simp only [setWaiting, Function.update_self]

theorem run_proceed_succ {t : SharedTree ι σ} {client : ι} {symbol : String}
    {d rest : Dialogue (List Node)} {s : σ} (hwaiting : t.waiting client = some (symbol, d))
    (hproceed : t.proceed tools client symbol d =
      ({ t with tools := s }.setWaiting client (some (symbol, rest)), [])) (count : Nat) :
    t.run p tools (List.replicate (count + 1) (client, .proceed)) =
      ({ t with tools := s }.setWaiting client (some (symbol, rest))).run p tools
        (List.replicate count (client, .proceed)) := by
  rw [List.replicate_succ, run_cons, act_proceed p tools hwaiting, hproceed]
  rfl

-- A client that nobody disturbs goes through its whole dialogue, and then settles.
theorem exists_run_proceed (t : SharedTree ι σ) {client : ι} {symbol : String}
    {d : Dialogue (List Node)} (hwaiting : t.waiting client = some (symbol, d)) :
    ∃ count, t.run p tools (List.replicate count (client, .proceed)) =
      let u := t.roots.settle (d.play tools t.tools).outcome
      (⟨u.roots, (d.play tools t.tools).state, Function.update t.waiting client none⟩,
        [⟨client, .track symbol, u.value.map .tracked⟩]) := by
  induction d generalizing t with
  | done nodes =>
    refine ⟨1, ?_⟩
    rw [List.replicate_one, run_cons, act_proceed p tools hwaiting]
    rfl
  | failed failure =>
    refine ⟨1, ?_⟩
    rw [List.replicate_one, run_cons, act_proceed p tools hwaiting]
    rfl
  | run call next ih =>
    obtain ⟨count, hrun⟩ := ih (tools.run call t.tools).1 _
      (setWaiting_waiting { t with tools := (tools.run call t.tools).2 } client _)
    refine ⟨count + 1, ?_⟩
    rw [run_proceed_succ p tools hwaiting rfl, hrun]
    simp only [setWaiting, Function.update_idem, Dialogue.play]
  | list call next ih =>
    obtain ⟨count, hrun⟩ := ih (tools.list call t.tools).1 _
      (setWaiting_waiting { t with tools := (tools.list call t.tools).2 } client _)
    refine ⟨count + 1, ?_⟩
    rw [run_proceed_succ p tools hwaiting rfl, hrun]
    simp only [setWaiting, Function.update_idem, Dialogue.play]
  | warn notice next ih =>
    obtain ⟨count, hrun⟩ := ih _ (setWaiting_waiting t client _)
    refine ⟨count + 1, ?_⟩
    rw [run_proceed_succ p tools hwaiting rfl, hrun]
    simp only [setWaiting, Function.update_idem, Dialogue.play]

-- For such a client the shared tree is a tree of its own.
theorem exists_run_alone (t : SharedTree ι σ) {client : ι} (hwaiting : t.waiting client = none)
    (r : Request) :
    let alone : Tree σ := ⟨t.roots, t.tools⟩
    ∃ count, t.run p tools ((client, .ask r) :: List.replicate count (client, .proceed)) =
      (⟨(alone.next p tools r).roots, (alone.next p tools r).tools, t.waiting⟩,
        [⟨client, r, (alone.ask p tools r).value⟩]) := by
  intro alone
  have hact : t.act p tools client (.ask r) = t.ask p client r := by
    unfold act
    rw [hwaiting]
  cases r with
  | track symbol =>
    obtain ⟨count, hrun⟩ := (t.ask p client (.track symbol)).1.exists_run_proceed p tools
      (setWaiting_waiting t client _)
    refine ⟨count, ?_⟩
    have hidle : Function.update t.waiting client none = t.waiting :=
      Function.update_eq_self_iff.mpr hwaiting.symm
    rw [run_cons, hact, hrun]
    unfold Tree.next Tree.ask
    rw [Roots.play_fulfil_track]
    simp only [ask, setWaiting, alone, Function.update_idem, hidle]
    rfl
  | untrack n =>
    refine ⟨0, ?_⟩
    rw [run_cons, hact]
    rfl
  | clear =>
    refine ⟨0, ?_⟩
    rw [run_cons, hact]
    rfl

end SharedTree

end Concordance
