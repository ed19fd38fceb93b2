import Concordance.Proofs.Expansion.Nodes
import Concordance.Proofs.Project.References
import Concordance.Proofs.Roots.Run
import Concordance.Tool.Script

namespace Concordance

namespace Roots

-- The list changes and the change is told where a node is new, and else neither.
theorem commit_cases (roots : Roots) {nodes : List Node} (h : nodes ≠ []) :
    roots.commit nodes = ⟨.alreadyTracked, roots, []⟩ ∨
      ∃ fresh, fresh ≠ [] ∧
        roots.commit nodes = ⟨.added fresh, fresh ++ roots, [.rootsAdded fresh.length]⟩ := by
  unfold commit
  rw [if_neg (mt List.isEmpty_iff.mp h)]
  dsimp only
  by_cases hfresh : (nodes.filter fun n => !roots.tracks n.key).isEmpty
  · rw [if_pos hfresh]
    exact Or.inl rfl
  · rw [if_neg hfresh]
    exact Or.inr ⟨_, mt List.isEmpty_iff.mpr hfresh, rfl⟩

theorem commit_ne_noReferences (roots : Roots) {nodes : List Node} (h : nodes ≠ []) :
    (roots.commit nodes).value ≠ .noReferences := by
  rcases roots.commit_cases h with hcommit | ⟨fresh, -, hcommit⟩
  · rw [hcommit]
    exact TrackOutcome.noConfusion
  · rw [hcommit]
    exact TrackOutcome.noConfusion

theorem commit_singleton (roots : Roots) (n : Node) :
    roots.commit [n] =
      if roots.tracks n.key then ⟨.alreadyTracked, roots, []⟩
      else ⟨.added [n], n :: roots, [.rootsAdded 1]⟩ := by
  cases h : roots.tracks n.key with
  | true => simp [commit, h]
  | false => simp [commit, h]

end Roots

namespace Tree

variable {σ : Type}

-- What is promised when a symbol is tracked for which this was found: it is said that there
-- is nothing exactly when there is nothing, and then nothing is changed and nobody is told.
def ReportsMissing (t : Tree σ) (os : List Occurrence)
    (u : Update (Except ToolFailure Response)) : Prop :=
  (u.value = .ok (.tracked .noReferences) ↔ os = []) ∧
    (u.value = .ok (.tracked .noReferences) → u.roots = t.roots ∧ u.changes = [])

theorem reportsMissing_iff_of_ne {t : Tree σ} {os : List Occurrence}
    {u : Update (Except ToolFailure Response)} (h : u.value ≠ .ok (.tracked .noReferences)) :
    t.ReportsMissing os u ↔ os ≠ [] := by
  constructor
  · rintro ⟨hreport, -⟩ hnil
    exact h (hreport.mpr hnil)
  · intro hne
    exact ⟨⟨fun hvalue => absurd hvalue h, fun hnil => absurd hnil hne⟩,
      fun hvalue => absurd hvalue h⟩

variable (p : Project) (tools : Toolbox σ)

theorem ask_track_of_found {t : Tree σ} {symbol : String} {os : List Occurrence}
    (hfound : t.found p tools symbol = .ok os) :
    t.ask p tools (.track symbol) =
      (t.roots.commit ((Target.symbol symbol).nodes symbol os true)).map fun outcome =>
        .ok (.tracked outcome) := by
  rw [ask_track, hfound]

-- The promise is kept exactly where the queries find something. Where they find nothing, the
-- stand-in of the symbol becomes a root like any other.
theorem track_reportsMissing_iff (t : Tree σ) {symbol output uses : String} {first second : σ}
    (hdefinitions : tools.run (p.call (.definitions symbol)) t.tools = (.ok output, first))
    (huses : tools.run (p.call (Project.secondQuery symbol output)) first = (.ok uses, second)) :
    let os := Occurrence.ofOutput .definition output ++ Occurrence.ofOutput .referencedBy uses
    let u := t.ask p tools (.track symbol)
    (t.ReportsMissing os u ↔ os ≠ []) ∧
      (u = ⟨.ok (.tracked .alreadyTracked), t.roots, []⟩ ∨
        ∃ nodes, nodes ≠ [] ∧
          u = ⟨.ok (.tracked (.added nodes)), nodes ++ t.roots, [.rootsAdded nodes.length]⟩) ∧
      (os = [] →
        u = if t.roots.tracks (Node.placeholder symbol).key then
            ⟨.ok (.tracked .alreadyTracked), t.roots, []⟩
          else
            ⟨.ok (.tracked (.added [Node.placeholder symbol])),
              Node.placeholder symbol :: t.roots, [.rootsAdded 1]⟩) := by
  intro os u
  obtain ⟨log, s', -, -, -, hplay⟩ := p.exists_play_references_found tools hdefinitions huses
  have hfound : t.found p tools symbol = .ok (assignAll log.cache.tables os) := by
    rw [found, hplay]
  have hnodes := Target.nodes_root_ne_nil symbol (assignAll log.cache.tables os)
  have hask : u = (t.roots.commit ((Target.symbol symbol).nodes symbol
      (assignAll log.cache.tables os) true)).map fun outcome => .ok (.tracked outcome) :=
    ask_track_of_found p tools hfound
  rw [hask]
  refine ⟨?_, ?_, ?_⟩
  · apply reportsMissing_iff_of_ne
    intro hvalue
    exact t.roots.commit_ne_noReferences hnodes (Response.tracked.inj (Except.ok.inj hvalue))
  · rcases t.roots.commit_cases hnodes with hcommit | ⟨fresh, hfresh, hcommit⟩
    · rw [hcommit]
      exact Or.inl rfl
    · rw [hcommit]
      exact Or.inr ⟨fresh, hfresh, rfl⟩
  · intro hnil
    have hplaceholder : (Target.symbol symbol).nodes symbol (assignAll log.cache.tables os) true =
        [Node.placeholder symbol] := by
      rw [hnil]
      exact Target.nodes_root_placeholder symbol (by simp [assignAll])
    rw [hplaceholder, Roots.commit_singleton]
    split_ifs with htracked
    · rfl
    · rfl

-- A project with the default settings.
def standard : Project := ⟨{}, "/ws"⟩

-- Its tools print nothing here, whatever they are asked.
theorem track_reportsMissing_silent :
    Script.toolbox.run (standard.call (.definitions "lost")) [] = (.ok "", []) ∧
      Script.toolbox.run (standard.call (Project.secondQuery "lost" "")) [] = (.ok "", []) ∧
      Tree.ask standard Script.toolbox ⟨[], []⟩ (.track "lost") =
        ⟨.ok (.tracked (.added [Node.placeholder "lost"])), [Node.placeholder "lost"],
          [.rootsAdded 1]⟩ := by
  have hdefinitions :
      Script.toolbox.run (standard.call (.definitions "lost")) [] = (.ok "", []) := rfl
  have huses :
      Script.toolbox.run (standard.call (Project.secondQuery "lost" "")) [] = (.ok "", []) := rfl
  obtain ⟨-, -, hnil⟩ :=
    track_reportsMissing_iff standard Script.toolbox ⟨[], []⟩ hdefinitions huses
  refine ⟨hdefinitions, huses, (hnil rfl).trans ?_⟩
  rfl

-- Then the stand-in becomes a root, and it is not said that there is nothing.
theorem silent_not_reported :
    ¬ ∀ (t : Tree Script) (symbol output uses : String) (first second : Script),
      Script.toolbox.run (standard.call (.definitions symbol)) t.tools = (.ok output, first) →
      Script.toolbox.run (standard.call (Project.secondQuery symbol output)) first =
        (.ok uses, second) →
      t.ReportsMissing
        (Occurrence.ofOutput .definition output ++ Occurrence.ofOutput .referencedBy uses)
        (t.ask standard Script.toolbox (.track symbol)) := by
  intro h
  have hlost := h ⟨[], []⟩ "lost" "" "" [] [] rfl rfl
  have hreport := hlost.1.mpr rfl
  cases hreport

end Tree

end Concordance
