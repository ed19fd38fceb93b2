import Concordance.Health
import Concordance.Proofs.Tool.Dialogue

namespace Concordance.Health

-- A check comes to a finding of its name, whatever the tools answer.
def Finds (name : String) (d : Dialogue Checked) : Prop := d.Ends fun c => c.finding.name = name

theorem finds_advised (config : Config) (name detail : String) :
    Finds name (advised config name detail) := by
  unfold advised
  split <;> rfl

theorem finds_checkIndexer (config : Config) : Finds "indexer" (checkIndexer config) := by
  intro reply
  cases reply with
  | ok output => rfl
  | error failure => exact finds_advised config "indexer" _

theorem finds_checkTagger (config : Config) : Finds "tagger" (checkTagger config) := by
  intro reply
  cases reply with
  | error failure => exact finds_advised config "tagger" _
  | ok output =>
    by_cases hname : Text.contains output "Universal Ctags"
    · simp only [Dialogue.bind, if_pos hname]
      rfl
    · simp only [Dialogue.bind, if_neg hname]
      exact finds_advised config "tagger" _

theorem finds_checkIndex (config : Config) (root : Path) (found : Except SystemFault Unit) :
    Finds "index" (checkIndex config root found) := by
  unfold checkIndex
  split
  · rfl
  · exact finds_advised config "index" _
  · intro reply
    cases reply <;> rfl

-- All three checks are made, also after one that found something wrong.
theorem checkAll_ends (config : Config) (root : Path) (found : Except SystemFault Unit) :
    (checkAll config root found).Ends fun checked =>
      checked.map (fun c => c.finding.name) = ["indexer", "tagger", "index"] := by
  refine (finds_checkIndexer config).bind fun indexer hindexer => ?_
  refine (finds_checkTagger config).bind fun tagger htagger => ?_
  refine (finds_checkIndex config root found).bind fun index hindex => ?_
  simp [Dialogue.pure_eq_done, Dialogue.Ends, hindexer, htagger, hindex]

end Concordance.Health
