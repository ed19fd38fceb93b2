import Mathlib.Data.List.Forall2
import Concordance.Proofs.Tool.Dialogue

namespace Concordance.Dialogue

variable {α β σ : Type} {tools : Toolbox σ} {d : Dialogue α} {f : α → Dialogue β}

-- A dialogue that ends alike in whatever state it finds the tools.
def EndsAlike (tools : Toolbox σ) (d : Dialogue α) : Prop :=
  ∀ s t, (d.play tools s).outcome = (d.play tools t).outcome

theorem endsAlike_done (value : α) : (done value).EndsAlike tools := fun _ _ => rfl

theorem endsAlike_ask (h : tools.Stateless) (call : Invocation) :
    (ask call).EndsAlike tools := by
  intro s t
  have hs : (ask call).play tools s = ⟨(tools.run call s).1, [call], [], (tools.run call s).2⟩ :=
    play_ask rfl
  have ht : (ask call).play tools t = ⟨(tools.run call t).1, [call], [], (tools.run call t).2⟩ :=
    play_ask rfl
  rw [hs, ht]
  exact h call s t

theorem EndsAlike.bind (h : d.EndsAlike tools) (hf : ∀ value, (f value).EndsAlike tools) :
    (d.bind f).EndsAlike tools := by
  intro s t
  rw [play_bind, play_bind, h s t]
  cases (d.play tools t).outcome with
  | error failure => rfl
  | ok value => exact hf value _ _

theorem play_bind_ok_iff {s : σ} {result : β} :
    ((d.bind f).play tools s).outcome = .ok result ↔
      ∃ value, (d.play tools s).outcome = .ok value ∧
        ((f value).play tools (d.play tools s).state).outcome = .ok result := by
  refine ⟨exists_of_play_bind_ok, fun ⟨value, hvalue, hresult⟩ => ?_⟩
  rw [play_bind, hvalue]
  exact hresult

theorem play_notifyAll_bind (notices : List Notice) (g : Unit → Dialogue β) (s : σ) :
    (((notifyAll notices).bind g).play tools s).outcome = ((g ()).play tools s).outcome := by
  rw [play_bind_ok (play_notifyAll tools notices s)]

-- Where it is settled what each part comes to, whatever the state in which it starts, the parts
-- come one by one to what they come to in a row.
theorem play_forEach_ok_iff {R : α → β → Prop}
    (h : ∀ x y t, ((f x).play tools t).outcome = .ok y ↔ R x y) {xs : List α} {ys : List β}
    {s : σ} : ((forEach f xs).play tools s).outcome = .ok ys ↔ List.Forall₂ R xs ys := by
  induction xs generalizing ys s with
  | nil =>
    rw [List.forall₂_nil_left_iff, eq_comm]
    exact ⟨Except.ok.inj, congrArg Except.ok⟩
  | cons x xs ih =>
    rw [forEach, play_bind_ok_iff]
    constructor
    · rintro ⟨y, hfirst, hrest⟩
      obtain ⟨rest, hothers, hend⟩ := play_bind_ok_iff.mp hrest
      cases hend
      exact .cons ((h x y s).mp hfirst) (ih.mp hothers)
    · intro hboth
      cases hboth with
      | @cons _ y _ rest hfirst hothers =>
        exact ⟨y, (h x y s).mpr hfirst, play_bind_ok_iff.mpr ⟨rest, ih.mpr hothers, rfl⟩⟩

end Concordance.Dialogue
