import Mathlib.Algebra.GroupWithZero.Nat
import Concordance.Proofs.Roots.Commit
import Concordance.Proofs.Roots.Missing

namespace Concordance

namespace Roots

-- Every root is the stand-in of a symbol or a definition.
def Genuine (roots : Roots) : Prop :=
  ∀ n ∈ roots, (∃ symbol, n = Node.placeholder symbol) ∨ n.relation = .definition

theorem Genuine.placeholder_mem {roots : Roots} (h : roots.Genuine) {symbol : String}
    (hkey : (Node.placeholder symbol).key ∈ roots.map Node.key) :
    Node.placeholder symbol ∈ roots := by
  obtain ⟨n, hn, hsame⟩ := List.mem_map.mp hkey
  rcases h n hn with ⟨other, rfl⟩ | hdefinition
  · have hlabel : other = symbol := by
      simpa [Node.key, Node.isPlaceholder, Node.placeholder] using hsame
    rwa [← hlabel]
  · have hplaceholder := congrArg Node.Key.placeholder hsame
    simp [Node.key, Node.isPlaceholder, Node.placeholder, hdefinition] at hplaceholder

theorem untrack_value_add (roots : Roots) (key : Node.Key) :
    (roots.untrack key).value + (roots.untrack key).roots.length = roots.length :=
  Nat.sub_add_cancel (List.length_filter_le _ roots)

theorem untrack_of_not_mem {roots : Roots} {key : Node.Key} (h : key ∉ roots.map Node.key) :
    roots.untrack key = ⟨0, roots, [.rootRemoved]⟩ := by
  have hleft : roots.filter (fun n => n.key ≠ key) = roots := by
    rw [List.filter_eq_self]
    intro n hn
    have hne : n.key ≠ key := fun hkey => h (hkey ▸ List.mem_map_of_mem hn)
    simpa using hne
  unfold untrack
  dsimp only
  rw [hleft, Nat.sub_self]

-- All new roots go and all older ones stay, when they have no key in common.
theorem filter_added {roots : Roots} {nodes order : List Node} (horder : order.Perm nodes)
    (hnew : ∀ n ∈ nodes, n.key ∉ roots.map Node.key) :
    (nodes ++ roots).filter (fun n => n.key ∉ order.map Node.key) = roots := by
  have hkeys (key : Node.Key) : key ∈ order.map Node.key ↔ key ∈ nodes.map Node.key :=
    (horder.map Node.key).mem_iff
  have hgone : nodes.filter (fun n => n.key ∉ order.map Node.key) = [] := by
    rw [List.filter_eq_nil_iff]
    intro n hn
    simpa using (hkeys n.key).mpr (List.mem_map_of_mem hn)
  have hkept : roots.filter (fun n => n.key ∉ order.map Node.key) = roots := by
    rw [List.filter_eq_self]
    intro n hn
    rw [decide_eq_true_iff, hkeys]
    intro hkey
    obtain ⟨m, hm, hsame⟩ := List.mem_map.mp hkey
    exact hnew m hm (hsame ▸ List.mem_map_of_mem hn)
  rw [List.filter_append, hgone, hkept, List.nil_append]

end Roots

namespace Tree

variable {σ : Type} (p : Project) (tools : Toolbox σ)

-- What is answered to the requests of a run, one after another.
def responses (t : Tree σ) : List Request → List (Except ToolFailure Response)
  | [] => []
  | r :: rs => (t.ask p tools r).value :: (t.next p tools r).responses rs

theorem run_cons (t : Tree σ) (r : Request) (rs : List Request) :
    run p tools t (r :: rs) = run p tools (t.next p tools r) rs := rfl

theorem next_track_roots_eq (t : Tree σ) (symbol : String) :
    (t.next p tools (.track symbol)).roots = t.roots ∨
      ∃ os, t.found p tools symbol = .ok os ∧
        (t.next p tools (.track symbol)).roots =
          t.roots.fresh ((Target.symbol symbol).nodes symbol os true) ++ t.roots := by
  rw [next_track_roots]
  cases t.found p tools symbol with
  | error failure => exact Or.inl rfl
  | ok os =>
    refine Or.inr ⟨os, rfl, ?_⟩
    dsimp only
    rw [Roots.commit_roots, Roots.filter_not_tracks]

theorem genuine_next {t : Tree σ} (h : t.roots.Genuine) (r : Request) :
    (t.next p tools r).roots.Genuine := by
  cases r with
  | track symbol =>
    rcases next_track_roots_eq p tools t symbol with hsame | ⟨os, -, hroots⟩
    · rwa [hsame]
    · rw [hroots]
      intro n hn
      rcases List.mem_append.mp hn with hnew | hold
      · rcases Target.mem_nodes_root (Roots.mem_fresh.mp hnew).1 with hstand | ⟨o, -, hd, _, rfl⟩
        · exact Or.inl ⟨symbol, hstand⟩
        · exact Or.inr hd
      · exact h n hold
  | untrack m =>
    intro n hn
    exact h n (List.mem_filter.mp hn).1
  | clear =>
    intro n hn
    exact absurd hn List.not_mem_nil

theorem genuine_run {t : Tree σ} (h : t.roots.Genuine) (requests : List Request) :
    (run p tools t requests).roots.Genuine := by
  induction requests generalizing t with
  | nil => exact h
  | cons r requests ih => exact ih (genuine_next p tools h r)

theorem next_track_of_added {t : Tree σ} {symbol : String} {nodes : List Node}
    (h : (t.ask p tools (.track symbol)).value = .ok (.tracked (.added nodes))) :
    (t.next p tools (.track symbol)).roots = nodes ++ t.roots ∧
      ∀ n ∈ nodes, n.key ∉ t.roots.map Node.key := by
  rw [ask_track] at h
  rw [next_track_roots]
  cases hfound : t.found p tools symbol with
  | error failure =>
    rw [hfound] at h
    cases h
  | ok os =>
    rw [hfound] at h
    have hvalue := Response.tracked.inj (Except.ok.inj h)
    obtain ⟨rfl, hne⟩ := Roots.commit_value_eq_added_iff.mp hvalue
    refine ⟨?_, fun n hn => (Roots.mem_fresh.mp hn).2⟩
    dsimp only
    rw [Roots.commit_of_fresh_ne_nil hne]

-- What a request leaves of the older roots stands in their order.
theorem older_sublist (t : Tree σ) (r : Request) :
    ((t.next p tools r).roots.filter fun n => n.key ∈ t.roots.map Node.key).Sublist t.roots := by
  cases r with
  | track symbol =>
    rcases next_track_roots_eq p tools t symbol with hsame | ⟨os, -, hroots⟩
    · rw [hsame]
      exact List.filter_sublist
    · have hnew : (t.roots.fresh ((Target.symbol symbol).nodes symbol os true)).filter
          (fun n => n.key ∈ t.roots.map Node.key) = [] := by
        rw [List.filter_eq_nil_iff]
        intro n hn
        simpa using (Roots.mem_fresh.mp hn).2
      rw [hroots, List.filter_append, hnew, List.nil_append]
      exact List.filter_sublist
  | untrack m => exact List.filter_sublist.trans List.filter_sublist
  | clear => exact List.nil_sublist _

theorem run_untrack_roots (t : Tree σ) (nodes : List Node) :
    (run p tools t (nodes.map .untrack)).roots =
      t.roots.filter fun n => n.key ∉ nodes.map Node.key := by
  induction nodes generalizing t with
  | nil =>
    have hall : t.roots.filter (fun n => n.key ∉ List.map Node.key []) = t.roots :=
      List.filter_eq_self.mpr fun n _ => by simp
    exact hall.symm
  | cons m nodes ih =>
    rw [List.map_cons, run_cons, ih, next_untrack_roots, Roots.untrack, List.filter_filter]
    refine List.filter_congr fun n _ => ?_
    by_cases hm : n.key = m.key <;> simp [hm]

theorem exists_responses_untrack (t : Tree σ) (nodes : List Node) :
    ∃ counts : List Nat,
      responses p tools t (nodes.map .untrack) = counts.map (fun count => .ok (.untracked count)) ∧
        counts.sum + (run p tools t (nodes.map .untrack)).roots.length = t.roots.length := by
  induction nodes generalizing t with
  | nil => exact ⟨[], rfl, Nat.zero_add _⟩
  | cons m nodes ih =>
    obtain ⟨counts, hresponses, hsum⟩ := ih (t.next p tools (.untrack m))
    have hfirst := t.roots.untrack_value_add m.key
    refine ⟨(t.roots.untrack m.key).value :: counts, ?_, ?_⟩
    · rw [List.map_cons, responses, hresponses]
      rfl
    · rw [next_untrack_roots] at hsum
      rw [List.map_cons, run_cons, List.sum_cons]
      omega

-- Tracking a symbol is undone by removing what it added, in any order. New roots share no
-- key with older ones, so that each removal takes away new ones only.
theorem track_undone (start : σ) (requests : List Request) :
    let t := run p tools ⟨[], start⟩ requests
    (∀ (symbol : String) (nodes order : List Node),
      (t.ask p tools (.track symbol)).value = .ok (.tracked (.added nodes)) →
      order.Perm nodes →
        let after := t.next p tools (.track symbol)
        (run p tools after (order.map .untrack)).roots = t.roots ∧
          ∃ counts : List Nat,
            responses p tools after (order.map .untrack) =
                counts.map (fun count => .ok (.untracked count)) ∧
              counts.sum = nodes.length) ∧
      (∀ r, ((t.next p tools r).roots.filter fun n => n.key ∈ t.roots.map Node.key).Sublist
        t.roots) ∧
      ∀ n, n.key ∉ t.roots.map Node.key ∨ (∃ symbol, n = Node.placeholder symbol) ∧ n ∉ t.roots →
        t.ask p tools (.untrack n) = ⟨.ok (.untracked 0), t.roots, [.rootRemoved]⟩ := by
  intro t
  have hgenuine : t.roots.Genuine :=
    genuine_run p tools (fun n hn => absurd hn List.not_mem_nil) requests
  refine ⟨?_, older_sublist p tools t, ?_⟩
  · intro symbol nodes order hadded horder after
    obtain ⟨hroots, hnew⟩ := next_track_of_added p tools hadded
    have hrestored : (run p tools after (order.map .untrack)).roots = t.roots := by
      rw [run_untrack_roots, hroots]
      exact Roots.filter_added horder hnew
    obtain ⟨counts, hresponses, hsum⟩ := exists_responses_untrack p tools after order
    refine ⟨hrestored, counts, hresponses, ?_⟩
    rw [hrestored, hroots, List.length_append] at hsum
    omega
  · intro n hn
    have hkey : n.key ∉ t.roots.map Node.key := by
      rcases hn with hkey | ⟨⟨symbol, rfl⟩, hnot⟩
      · exact hkey
      · exact fun hkey => hnot (hgenuine.placeholder_mem hkey)
    rw [ask_untrack, Roots.untrack_of_not_mem hkey]
    rfl

-- A symbol with definitions in two files, and a use on the line of the second one.
def initTools : Script :=
  let first := "init 3 a.c void init(void);\n"
  let second := "init 7 b.c void init(void) \x7b init(); \x7d\n"
  [⟨⟨"global", ["-x", "init"]⟩, .ok (first ++ second), none⟩,
    ⟨⟨"global", ["-rx", "init"]⟩, .ok second, none⟩,
    ⟨⟨"ctags", taggingArgs "b.c"⟩,
      .ok "init\tb.c\t/^void init(void) \x7b init(); \x7d$/;\"\tfunction\tline:7\n", none⟩]

def initRoots : List Node :=
  let second : Node :=
    ⟨"init", "b.c", 7, .definition, "init", "void init(void) \x7b init(); \x7d", true, false,
      "function"⟩
  [⟨"init", "a.c", 3, .definition, "init", "void init(void);", true, false, ""⟩, second, second]

theorem track_undone_init :
    let t := run standard Script.toolbox ⟨[], initTools⟩ [.track "lost"]
    let after := t.next standard Script.toolbox (.track "init")
    (t.ask standard Script.toolbox (.track "init")).value = .ok (.tracked (.added initRoots)) ∧
      initRoots.reverse.Perm initRoots ∧
      after.roots = initRoots ++ [Node.placeholder "lost"] ∧
      (run standard Script.toolbox after (initRoots.reverse.map .untrack)).roots =
        [Node.placeholder "lost"] ∧
      ∃ counts : List Nat,
        responses standard Script.toolbox after (initRoots.reverse.map .untrack) =
            counts.map (fun count => .ok (.untracked count)) ∧
          counts.sum = 3 := by
  intro t after
  have hadded : (t.ask standard Script.toolbox (.track "init")).value =
      .ok (.tracked (.added initRoots)) := by decide +kernel
  have hbefore : t.roots = [Node.placeholder "lost"] := by decide +kernel
  have hafter : after.roots = initRoots ++ [Node.placeholder "lost"] := by
    rw [(next_track_of_added standard Script.toolbox hadded).1, hbefore]
  have horder : initRoots.reverse.Perm initRoots := List.reverse_perm initRoots
  obtain ⟨hundone, -, -⟩ := track_undone standard Script.toolbox initTools [.track "lost"]
  obtain ⟨hroots, hcounts⟩ := hundone "init" initRoots initRoots.reverse hadded horder
  exact ⟨hadded, horder, hafter, hroots.trans hbefore, hcounts⟩

end Tree

end Concordance
