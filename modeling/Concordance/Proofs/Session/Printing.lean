import Concordance.Proofs.Console
import Concordance.Session

namespace Concordance.Session

variable {σ : Type} {tools : Toolbox σ} (s : Session)

-- What is printed of a result.
def emitted (json : Json) (human : String) : String :=
  if s.json then json.format ++ "\n" else human

-- The form that six commands share: they ask, and then print.
def printing {α : Type} (d : Dialogue α) (json : α → Json) (human : α → String) : Console Unit :=
  (Console.hold d).bind fun value => s.emit (json value) (human value)

theorem play_printing {α : Type} (d : Dialogue α) (json : α → Json) (human : α → String) (t : σ) :
    ((s.printing d json human).dialogue.play tools t).outcome =
      .ok (match (d.play tools t).outcome with
        | .ok value => ⟨s.emitted (json value) (human value), .ok ()⟩
        | .error failure => ⟨"", .error (.tool failure)⟩) := by
  rw [printing, Console.play_hold_bind]
  cases (d.play tools t).outcome <;> rfl

theorem faults_printing {α : Type} (d : Dialogue α) (json : α → Json) (human : α → String) (t : σ) :
    (s.printing d json human).dialogue.faults tools t = d.faults tools t := by
  rw [printing, Console.faults_hold_bind]
  cases (d.play tools t).outcome <;> exact List.append_nil _

-- A command without the warning that there is no index.
def carry (index : Except SystemFault Unit) : Command → Console Unit
  | .refs symbol => s.refs symbol
  | .«def» symbol => s.definitions symbol
  | .symbols file => s.fileSymbols file
  | .outline file => s.outline file
  | .search query => s.search query
  | .tree symbols depth => s.tree symbols depth
  | .complete start => s.complete start
  | .doctor => s.doctor index

theorem run_eq (index : Except SystemFault Unit) (command : Command) :
    s.run index command =
      if s.workspace.indexed then s.carry index command
      else (Console.hold (Dialogue.notify .noIndex)).bind fun _ => s.carry index command := by
  unfold run
  cases s.workspace.indexed <;> cases command <;> rfl

theorem play_run (index : Except SystemFault Unit) (command : Command) (t : σ) :
    ((s.run index command).dialogue.play tools t).outcome =
      ((s.carry index command).dialogue.play tools t).outcome := by
  rw [run_eq]
  split
  · rfl
  · exact Console.play_hold_bind tools (Dialogue.notify .noIndex) _ t

theorem faults_run (index : Except SystemFault Unit) (command : Command) (t : σ) :
    (s.run index command).dialogue.faults tools t =
      (s.carry index command).dialogue.faults tools t := by
  rw [run_eq]
  split
  · rfl
  · exact Console.faults_hold_bind tools (Dialogue.notify .noIndex) _ t

end Concordance.Session
