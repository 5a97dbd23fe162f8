import Mustache.Proofs.Caching
import Mustache.Proofs.Evaluation
import Mustache.Proofs.Placement

/-!
# Rendering follows evaluation

The program of a template does what evaluating its tree says: it writes the text
of the tree, asks the same questions in the same order, and fails where
evaluation fails.

Main results:

- Theorem `Context.resolve_ofName`: a name that was cut ahead stands for the
  same value as the name itself.
- Theorem `Render.runAll_follows`: instructions follow the nodes that they come from.
- Theorem `Render.runTemplate_follows`: templates follow their trees, to every depth.
- Theorem `Session.render_of_evaluation`: what a session renders is what evaluating the
  source gives.
-/

namespace Mustache

/-! ## Names -/

/-- A name that is cut at its dots has at least one part. -/
theorem Fragment.split_ne_nil (separator : Char) (start : Nat) (cs : List Char) :
    split separator start cs ≠ [] := by
  cases cs with
  | nil => simp [split]
  | cons c cs =>
    rw [split]
    split
    · simp
    · split <;> simp

/-- Cutting a name at its dots gives fragments with the texts between the dots. -/
theorem Fragment.map_text_split (start : Nat) (cs : List Char) :
    (split '.' start cs).map Fragment.text = cs.splitOn '.' := by
  induction cs generalizing start with
  | nil => rfl
  | cons c cs ih =>
    have hne := split_ne_nil '.' (start + c.utf8Size) cs
    rw [split, List.splitOn_cons_eq_if_modifyHead, ← ih (start + c.utf8Size)]
    by_cases hc : c = '.'
    · simp [hc]
    · rw [if_neg hc, if_neg (by simpa using hc)]
      cases hsplit : split '.' (start + c.utf8Size) cs with
      | nil => exact absurd hsplit hne
      | cons f fs => rfl

/-- Searching the values of a context finds the member of the innermost one that has any. -/
theorem searchMember_values (ctx : Context) (name : String) :
    searchMember name ctx.values = ctx.find name := by
  unfold Context.find
  induction ctx.values with
  | nil => rfl
  | cons v vs ih =>
    rw [searchMember, List.findSome?_cons, ih]
    cases v.lookup name <;> rfl

theorem descend_eq_foldlM (v : Value) (steps : List String) :
    descend v steps = steps.foldlM Value.lookup v := by
  induction steps generalizing v with
  | nil => rfl
  | cons step steps ih =>
    rw [descend, List.foldlM_cons]
    cases v.lookup step with
    | none => rfl
    | some member => exact ih member

/-- A name that was cut ahead stands for the same value as the name itself. -/
theorem Context.resolve_ofName (ctx : Context) (name : Fragment) :
    ctx.resolve (Reference.ofName name) = ctx.valueOf name.text := by
  unfold resolve Reference.segments Reference.ofName valueOf
  by_cases hdot : name.text = ['.']
  · simp [hdot, resolvePath]
  · have hne := Fragment.split_ne_nil '.' name.start name.text
    rw [if_neg hdot, if_neg hdot, ← Fragment.map_text_split name.start, List.map_map]
    cases hsplit : Fragment.split '.' name.start name.text with
    | nil => exact absurd hsplit hne
    | cons first steps =>
      simp only [List.map_cons, Function.comp_apply]
      rw [resolvePath, searchMember_values]
      cases hfind : ctx.find first.toString with
      | none =>
        rw [show ctx.find (String.ofList first.text) = none from hfind]
        rfl
      | some v =>
        rw [show ctx.find (String.ofList first.text) = some v from hfind]
        exact (descend_eq_foldlM v _).symm

/-- A value counts unless it is falsey. -/
theorem truthy?_some (v : Value) : truthy? (some v) = if v.isFalsey then none else some v := by
  cases v with
  | bool b => cases b <;> rfl
  | list items => cases items <;> rfl
  | map entries => cases entries <;> rfl
  | _ => rfl

/-! ## Failures -/

@[simp]
theorem Error.failure?_blame (name : String) (e : Error) :
    (e.blame name).failure? = e.failure? := by
  cases e <;> rfl

@[simp]
theorem Error.failure?_blameOwner (name source : String) (e : Error) :
    (e.blameOwner name source).failure? = e.failure? := by
  cases e with
  | flawed finding =>
    rw [blameOwner]
    split <;> rfl
  | _ => rfl

/-! ## Following an evaluation -/

/-- A buffer that was empty holds what was written to it. -/
theorem Sink.toList_text_buffer (out : List Char) :
    (buffer ("" ++ String.ofList out)).text.toList = out := by
  simp [text]

namespace Render

variable {σ α : Type}

/-- A part of a rendering to a buffer ends as an evaluation says: it adds the text of the
evaluation, or fails with its failure, and leaves the same questions behind. -/
def EndsAs (text : String) :
    EStateM.Result Error (Progress σ) Unit → EStateM.Result Failure (Inquiry σ) (List Char) → Prop
  | .ok _ p, .ok out i =>
    p.sink = .buffer (text ++ String.ofList out) ∧ i = ⟨p.host, p.calls⟩
  | .error e p, .error failure i => e.failure? = some failure ∧ i = ⟨p.host, p.calls⟩
  | _, _ => False

/-- A part of a rendering follows an evaluation, whatever has been written before it. -/
def Follows (x : Render σ Unit) (ev : Evaluation σ (List Char)) : Prop :=
  ∀ (p : Progress σ) (text : String), p.sink = .buffer text →
    EndsAs text (x p) (ev ⟨p.host, p.calls⟩)

/-- A part of a rendering that ends as an evaluation says either adds a text or fails. -/
theorem EndsAs.cases {text : String} {r : EStateM.Result Error (Progress σ) Unit}
    {s : EStateM.Result Failure (Inquiry σ) (List Char)} (h : EndsAs text r s) :
    (∃ p out, r = .ok () p ∧ s = .ok out ⟨p.host, p.calls⟩ ∧
      p.sink = .buffer (text ++ String.ofList out)) ∨
      ∃ e p failure, r = .error e p ∧ s = .error failure ⟨p.host, p.calls⟩ ∧
        e.failure? = some failure := by
  cases r with
  | ok u p =>
    cases s with
    | ok out i =>
      obtain ⟨hsink, rfl⟩ := h
      exact .inl ⟨p, out, rfl, rfl, hsink⟩
    | error failure i => exact h.elim
  | error e p =>
    cases s with
    | ok out i => exact h.elim
    | error failure i =>
      obtain ⟨he, rfl⟩ := h
      exact .inr ⟨e, p, failure, rfl, rfl, he⟩

namespace Follows

theorem pure : Follows (σ := σ) (Pure.pure ()) (Pure.pure []) := by
  intro p text hsink
  exact ⟨by simpa using hsink, rfl⟩

theorem throw {e : Error} {failure : Failure} (h : e.failure? = some failure) :
    Follows (σ := σ) (MonadExcept.throw e) (MonadExcept.throw failure) :=
  fun _ _ _ => ⟨h, rfl⟩

/-- Two parts in a row write two texts in a row. -/
theorem bind {x y : Render σ Unit} {ev ev' : Evaluation σ (List Char)} (hx : Follows x ev)
    (hy : Follows y ev') :
    Follows (do x; y) (do let first ← ev; let rest ← ev'; Pure.pure (first ++ rest)) := by
  intro p text hsink
  show EndsAs text (EStateM.bind x (fun _ => y) p) (EStateM.bind ev (fun first =>
    EStateM.bind ev' fun rest => EStateM.pure (first ++ rest)) _)
  unfold EStateM.bind
  rcases (hx p text hsink).cases with ⟨p', first, hp, hi, hsink'⟩ | ⟨e, p', failure, hp, hi, he⟩
  · rw [hp, hi]
    dsimp only
    rcases (hy p' _ hsink').cases with ⟨q, rest, hq, hj, hsink''⟩ | ⟨e, q, failure, hq, hj, he⟩
    · rw [hq, hj]
      refine ⟨?_, rfl⟩
      rw [hsink'', String.ofList_append, String.append_assoc]
    · rw [hq, hj]
      exact ⟨he, rfl⟩
  · rw [hp, hi]
    exact ⟨he, rfl⟩

theorem emit (piece : List Char) : Follows (σ := σ) (emit piece) (Pure.pure piece) := by
  intro p text hsink
  unfold Render.emit
  rw [hsink]
  exact ⟨rfl, rfl⟩

theorem emitAll (pieces : List (List Char)) :
    Follows (σ := σ) (emitAll pieces) (Pure.pure pieces.flatten) := by
  induction pieces with
  | nil => exact pure
  | cons piece pieces ih => exact bind (emit piece) ih

/-- A loop writes the texts of its rounds in order. -/
theorem forM {f : α → Render σ Unit} {g : α → Evaluation σ (List Char)}
    (h : ∀ x, Follows (f x) (g x)) (xs : List α) :
    Follows (xs.forM f) (Evaluation.inOrder g xs) := by
  induction xs with
  | nil => exact pure
  | cons x xs ih => exact bind (h x) ih

/-- A report leaves no trace in an evaluation. -/
theorem report_bind (e : Event) {x : Render σ Unit} {ev : Evaluation σ (List Char)}
    (hx : Follows x ev) : Follows (do report e; x) ev :=
  fun p text hsink => hx { p with events := p.events ++ [e] } text hsink

/-- The host is asked the same question, and gives the same answer. -/
theorem ask_bind (host : Host σ) (l : Lambda) (raw : String) {f : String → Render σ Unit}
    {g : String → Evaluation σ (List Char)} (hfg : ∀ text, Follows (f text) (g text)) :
    Follows (ask host (Call.ofLambda l raw) >>= f) (Evaluation.consult host l raw >>= g) := by
  intro p text hsink
  exact hfg _ { p with
    calls := p.calls ++ [Call.ofLambda l raw]
    host := (host.answer (Call.ofLambda l raw).lambda (Call.ofLambda l raw).argument p.host).2 }
    text hsink

theorem mapError {f : Error → Error} (hf : ∀ e, (f e).failure? = e.failure?) {x : Render σ Unit}
    {ev : Evaluation σ (List Char)} (hx : Follows x ev) : Follows (mapError f x) ev := by
  intro p text hsink
  unfold Render.mapError
  rcases (hx p text hsink).cases with ⟨q, out, hp, hi, hsink'⟩ | ⟨e, q, failure, hp, hi, he⟩
  · rw [hp, hi]
    exact ⟨hsink', rfl⟩
  · rw [hp, hi]
    exact ⟨(hf e).trans he, rfl⟩

/-- A captured text is written after it has been changed as a whole. -/
theorem captured_bind {x : Render σ Unit} {ev : Evaluation σ (List Char)} (hx : Follows x ev)
    {pieces : String → List (List Char)} {change : List Char → List Char}
    (hpieces : ∀ output, (pieces output).flatten = change output.toList) :
    Follows (captured x >>= fun output => Render.emitAll (pieces output))
      (ev >>= fun output => Pure.pure (change output)) := by
  intro p text hsink
  show EndsAs text (EStateM.bind (captured x) _ p) (EStateM.bind ev _ _)
  unfold EStateM.bind captured
  rcases (hx { p with sink := .empty } "" rfl).cases with
    ⟨q, out, hp, hi, hsink'⟩ | ⟨e, q, failure, hp, hi, he⟩
  · replace hi : ev ⟨p.host, p.calls⟩ = .ok out ⟨q.host, q.calls⟩ := hi
    rw [hp, hi]
    dsimp only
    have hout : q.sink.text.toList = out := by rw [hsink', Sink.toList_text_buffer]
    have hemit := emitAll (pieces q.sink.text) { q with sink := p.sink } text hsink
    rw [hpieces, hout] at hemit
    exact hemit
  · replace hi : ev ⟨p.host, p.calls⟩ = .error failure ⟨q.host, q.calls⟩ := hi
    rw [hp, hi]
    exact ⟨he, rfl⟩

/-- On a buffer, pieces that touch may as well be written one by one. -/
theorem emit_append {xs ys : List Char} {x : Render σ Unit} {ev : Evaluation σ (List Char)}
    (h : Follows (do Render.emit xs; Render.emit ys; x) ev) :
    Follows (do Render.emit (xs ++ ys); x) ev := by
  intro p text hsink
  have hrun := h p text hsink
  obtain ⟨compiled, events, calls, host, sink⟩ := p
  obtain rfl : sink = .buffer text := hsink
  show EndsAs text (x ⟨compiled, events, calls, host,
    .buffer (text ++ String.ofList (xs ++ ys))⟩) _
  rw [String.ofList_append, ← String.append_assoc]
  exact hrun

end Follows

end Render

/-! ## Templates and trees -/

/-- A template comes from a tree if its program is made from the nodes of the tree. -/
structure Template.ComesFrom (t : Template) (tree : Tree) : Prop where
  source : t.source.toList = tree.source
  live : t.live = tree.live
  program : t.program = Instr.ofNodes tree.source tree.nodes
  standsIn : ∀ f ∈ Node.fragmentsAll tree.nodes, f.StandsIn tree.source

/-- A source gives a template that comes from its tree, or an error with the failure of the tree. -/
theorem Template.compile_cases (pair : Delimiters) (source : String) :
    (∃ t tree, compile pair source = .ok t ∧ Tree.ofSource pair source.toList = .ok tree ∧
      t.ComesFrom tree) ∨
      ∃ e failure, compile pair source = .error e ∧
        Tree.ofSource pair source.toList = .error failure ∧ e.failure? = some failure := by
  unfold compile Tree.ofSource
  cases htree : tree pair source.toList with
  | error flaw => exact .inr ⟨_, _, rfl, rfl, rfl⟩
  | ok found =>
    obtain ⟨nodes, live⟩ := found
    exact .inl ⟨_, _, rfl, rfl, rfl, rfl, rfl, standsIn_of_tree htree⟩

/-- The fragments of a body stand where those of its section do. -/
theorem Node.standsIn_body {polarity : Polarity} {name opening closing : Fragment}
    {body : List Node} {source : List Char}
    (h : ∀ f ∈ (block polarity name opening closing body).fragments, f.StandsIn source) :
    ∀ f ∈ fragmentsAll body, f.StandsIn source := by
  intro f hf
  apply h
  simp [fragments, hf]

/-- The source of a partial with an indent, as a list of characters. -/
theorem Template.toList_indented (indent : List Char) (source : String) :
    (indented (String.ofList indent) source).toList = indentLines indent source.toList := by
  rw [indented, String.toList_ofList, String.toList_ofList]

namespace Render

variable {σ : Type}

/-- A rendering in the setting of a world compiles every partial when it is included. -/
def worldSetting (w : World σ) : Setting σ :=
  ⟨w.limit, w.host, freshTemplate w.delimiters w.partials⟩

/-- Templates inside the current one follow the trees that they come from, or are not run. -/
abbrev InnerFollows : Option (Nested σ) → Option (Evaluation.Inner σ) → Prop :=
  Option.Rel fun run evaluate =>
    ∀ t tree ctx, t.ComesFrom tree → Follows (run t ctx) (evaluate tree ctx)

section Programs

variable {w : World σ} {nested : Option (Nested σ)} {inner : Option (Evaluation.Inner σ)}
variable {t : Template} {tree : Tree}

/-- The text of a lambda is run as it is evaluated. -/
theorem expand_follows (hn : InnerFollows nested inner) (ht : t.ComesFrom tree) (ctx : Context)
    (text : String) : Follows (expand (worldSetting w) nested t ctx text)
      (Evaluation.expansion w inner tree ctx text) := by
  unfold expand Evaluation.expansion
  split
  · exact .pure
  · cases hn with
    | none => exact .throw rfl
    | some hrun =>
      rename_i run evaluate
      rw [enter_some, pure_bind, ht.live]
      refine .report_bind _ ?_
      rcases Template.compile_cases tree.live text with
        ⟨t', tree', hcompile, htree, hfrom⟩ | ⟨e, failure, hcompile, htree, he⟩
      · rw [hcompile, htree]
        exact hrun t' tree' ctx hfrom
      · rw [hcompile, htree]
        exact .throw he

/-- A partial is run as it is evaluated. -/
theorem includePartial_follows (hn : InnerFollows nested inner) (ctx : Context) (name : String)
    (indent : List Char) :
    Follows (includePartial (worldSetting w) nested ctx name (String.ofList indent))
      (Evaluation.inclusion w inner ctx name indent) := by
  have hload : (worldSetting w).load name (String.ofList indent) =
      freshTemplate w.delimiters w.partials name (String.ofList indent) := rfl
  unfold includePartial Evaluation.inclusion
  rw [hload]
  unfold freshTemplate
  cases Dictionary.get? w.partials name with
  | none => exact .pure
  | some source =>
    dsimp only
    have hcases := Template.compile_cases w.delimiters
      (Template.indented (String.ofList indent) source)
    rw [Template.toList_indented] at hcases
    rcases hcases with
      ⟨t, tree, hcompile, htree, hfrom⟩ | ⟨e, failure, hcompile, htree, he⟩
    · rw [hcompile, htree, ofExcept, pure_bind, mapError_pure, pure_bind]
      cases hn with
      | none => exact .throw rfl
      | some hrun =>
        have howner := Error.failure?_blameOwner name t.source
        exact .mapError howner (hrun t tree ctx hfrom)
    · rw [hcompile, htree]
      exact .throw ((Error.failure?_blame name e).trans he)

/-! ## Values -/

/-- The pieces of a text are the text as it is written. -/
theorem flatten_textPieces (escaping : Escaping) (text : String) :
    (textPieces escaping text).flatten = Evaluation.quote escaping text.toList := by
  cases escaping with
  | escaped => exact Html.flatten_escapePieces text.toList
  | unescaped => exact List.append_nil _

/-- A collection is refused under the name that stands for it. -/
theorem failure?_notRenderable {name : Fragment} {source : String}
    (hname : name.StandsIn source.toList) (found : Collection) :
    (Error.flawed ⟨⟨.notRenderable found, name.span⟩, source, none⟩).failure? =
      some (.flawed (.notRenderable found) name.text) := by
  rw [Error.failure?, hname.slice_span]

/-- The value of a name is written as it is evaluated. -/
theorem interpolate_follows (hn : InnerFollows nested inner) (ht : t.ComesFrom tree)
    (ctx : Context) (escaping : Escaping) {name : Fragment} (whole : Fragment)
    (hname : name.StandsIn tree.source) :
    Follows (interpolate (worldSetting w) nested t ctx escaping (Reference.ofName name))
      (Evaluation.node w inner tree ctx (.interpolation escaping name whole)) := by
  rw [← ht.source] at hname
  unfold interpolate
  rw [ctx.resolve_ofName, Evaluation.node]
  cases ctx.valueOf name.text with
  | none => exact .pure
  | some v =>
    rw [truthy?_some]
    cases hfalsey : v.isFalsey with
    | true =>
      cases v with
      | lambda l => cases hfalsey
      | _ =>
        dsimp only
        rw [hfalsey]
        exact .pure
    | false =>
      cases v with
      | lambda l =>
        refine .ask_bind w.host l "" fun text => ?_
        exact .captured_bind (expand_follows hn ht ctx text) fun output =>
          flatten_textPieces escaping output
      | list items =>
        dsimp only
        rw [hfalsey]
        exact .throw (failure?_notRenderable hname .list)
      | map entries =>
        dsimp only
        rw [hfalsey]
        exact .throw (failure?_notRenderable hname .map)
      | text s =>
        have hemit := Follows.emitAll (σ := σ) (textPieces escaping s)
        rw [flatten_textPieces] at hemit
        exact hemit
      | _ =>
        dsimp only
        rw [hfalsey]
        exact .emitAll _

/-! ## Instructions -/

/-- Text that touches may be joined, for a buffer cannot tell. -/
theorem runAll_cons_follows {ctx : Context} {i : Instr} {is : List Instr}
    {ev ev' : Evaluation σ (List Char)} {s : Setting σ}
    (hi : Follows (runInstr s nested t ctx i) ev)
    (his : Follows (runAll s nested t ctx is) ev') :
    Follows (runAll s nested t ctx (Instr.cons i is))
      (do let first ← ev; let rest ← ev'; pure (first ++ rest)) := by
  have happart : Follows (runAll s nested t ctx (i :: is))
      (do let first ← ev; let rest ← ev'; pure (first ++ rest)) := by
    rw [runAll]
    exact .bind hi his
  unfold Instr.cons
  split
  · rename_i f g rest
    split
    · rw [runAll, runInstr] at happart ⊢
      rw [runAll, runInstr] at happart
      exact .emit_append happart
    · exact happart
  · exact happart

mutual

/-- An instruction follows the node that it comes from. -/
theorem runInstr_follows (hn : InnerFollows nested inner) (ht : t.ComesFrom tree)
    (ctx : Context) : ∀ n : Node, (∀ f ∈ n.fragments, f.StandsIn tree.source) →
    Follows (runInstr (worldSetting w) nested t ctx (Instr.ofNode tree.source n))
      (Evaluation.node w inner tree ctx n)
  | .text whole, _ => by
    rw [Instr.ofNode, runInstr, Evaluation.node]
    exact .emit _
  | .interpolation escaping name whole, hstands => by
    rw [Instr.ofNode, runInstr]
    exact interpolate_follows hn ht ctx escaping whole (hstands name List.mem_cons_self)
  | .block .upright name opening closing body, hstands => by
    have hbody := Node.standsIn_body hstands
    rw [Instr.ofNode, runInstr, Evaluation.node, ctx.resolve_ofName]
    cases ctx.valueOf name.text with
    | none => exact .pure
    | some v =>
      rw [truthy?_some]
      cases v with
      | lambda l =>
        refine .ask_bind w.host l _ fun text => ?_
        exact expand_follows hn ht ctx text
      | list items =>
        cases items with
        | nil => exact .pure
        | cons item items =>
          exact .forM (fun item => runAll_follows hn ht (ctx.push item) body hbody) _
      | _ =>
        dsimp only
        split
        · exact .pure
        · exact runAll_follows hn ht _ body hbody
  | .block .inverted name opening closing body, hstands => by
    have hbody := Node.standsIn_body hstands
    rw [Instr.ofNode, runInstr, Evaluation.node, ctx.resolve_ofName]
    cases ctx.valueOf name.text with
    | none => exact runAll_follows hn ht ctx body hbody
    | some v =>
      rw [truthy?_some, Option.all_some]
      split
      · exact runAll_follows hn ht ctx body hbody
      · exact .pure
  | .inclusion name indent whole, _ => by
    rw [Instr.ofNode, runInstr, Evaluation.node]
    exact includePartial_follows hn ctx name.toString indent

/-- Instructions follow the nodes that they come from. -/
theorem runAll_follows (hn : InnerFollows nested inner) (ht : t.ComesFrom tree)
    (ctx : Context) : ∀ ns : List Node, (∀ f ∈ Node.fragmentsAll ns, f.StandsIn tree.source) →
    Follows (runAll (worldSetting w) nested t ctx (Instr.ofNodes tree.source ns))
      (Evaluation.nodes w inner tree ctx ns)
  | [], _ => by
    rw [Instr.ofNodes, runAll, Evaluation.nodes]
    exact .pure
  | n :: ns, hstands => by
    rw [Instr.ofNodes, Evaluation.nodes]
    refine runAll_cons_follows ?_ ?_
    · exact runInstr_follows hn ht ctx n fun f hf => hstands f (List.mem_append_left _ hf)
    · exact runAll_follows hn ht ctx ns fun f hf => hstands f (List.mem_append_right _ hf)

end

end Programs

/-- Templates follow the trees that they come from, to every depth. -/
theorem runTemplate_follows (w : World σ) (depth : Nat) {t : Template} {tree : Tree}
    (ht : t.ComesFrom tree) (ctx : Context) :
    Follows (runTemplate (worldSetting w) depth t ctx) (Evaluation.ofTree w depth tree ctx) := by
  induction depth generalizing t tree ctx with
  | zero =>
    show Follows (runAll (worldSetting w) none t ctx t.program) _
    rw [ht.program]
    exact runAll_follows .none ht ctx tree.nodes ht.standsIn
  | succ depth ih =>
    show Follows (runAll (worldSetting w) (some (runTemplate (worldSetting w) depth)) t ctx
      t.program) _
    rw [ht.program]
    exact runAll_follows (.some fun t tree ctx ht => ih ht ctx) ht ctx tree.nodes ht.standsIn

end Render

/-! ## Engines -/

variable {σ : Type}

/-- A rendering comes to what an evaluation says. -/
def Rendered.ComesTo (r : Rendered σ)
    (s : EStateM.Result Failure (Inquiry σ) (List Char)) : Prop :=
  match r.failure with
  | none => s = .ok r.sink.text.toList ⟨r.host, r.calls⟩
  | some e => ∃ failure, e.failure? = some failure ∧ s = .error failure ⟨r.host, r.calls⟩

/-- An empty template has the empty text. -/
theorem Evaluation.ofTemplate_empty (w : World σ) (view : Value) (i : Inquiry σ) :
    ofTemplate w "" view i = .ok [] i := by
  have hscan : Scan.read w.delimiters [] = ⟨[], .finished w.delimiters⟩ :=
    Scan.read_of_ended rfl
  have htree : Tree.ofSource w.delimiters [] = .ok ⟨[], [], w.delimiters⟩ := by
    unfold Tree.ofSource Template.tree Token.ofSource
    rw [hscan]
    rfl
  unfold ofTemplate
  rw [String.toList_empty, htree]
  cases w.limit <;> rfl

namespace BareSession

/-- What a bare session evaluates its templates in. -/
def world (b : BareSession σ) (host : Host σ) : World σ :=
  ⟨b.delimiters, b.partials, b.limit, host⟩

/-- A bare session renders a source to its text. -/
theorem render_comesTo (host : Host σ) (b : BareSession σ) (source : String) (view : Value) :
    (b.render host source view).ComesTo
      (Evaluation.ofTemplate (b.world host) source view ⟨b.host, []⟩) := by
  unfold render
  split
  · rename_i hempty
    rw [String.isEmpty_iff.1 hempty, Evaluation.ofTemplate_empty]
    rfl
  · unfold drawSource Evaluation.ofTemplate
    rcases Template.compile_cases b.delimiters source with
      ⟨t, tree, hcompile, htree, hfrom⟩ | ⟨e, failure, hcompile, htree, he⟩
    · rw [hcompile, show (b.world host).delimiters = b.delimiters from rfl, htree]
      have hrun := Render.runTemplate_follows (b.world host) b.limit hfrom (Context.ofView view)
        ⟨[], [], [], b.host, .empty⟩ "" rfl
      dsimp only
      have hbare : ∀ p, t.render (b.setting host) view p =
          Render.runTemplate (Render.worldSetting (b.world host)) b.limit t
            (Context.ofView view) p := fun _ => rfl
      unfold draw
      rw [hbare]
      rcases hrun.cases with ⟨p, out, hp, hi, hsink⟩ | ⟨e, p, failure, hp, hi, he⟩
      · have hout : p.sink.text.toList = out := by rw [hsink, Sink.toList_text_buffer]
        rw [hp]
        change _ = EStateM.Result.ok p.sink.text.toList (⟨p.host, p.calls⟩ : Inquiry σ)
        rw [hout]
        exact hi
      · rw [hp]
        exact ⟨failure, he, hi⟩
    · rw [hcompile, show (b.world host).delimiters = b.delimiters from rfl, htree]
      exact ⟨failure, he, rfl⟩

end BareSession

/-- After any requests, the engine of a session mirrors a bare session that evaluates in the world
of the engine. -/
theorem Session.exists_mirrors (host : Host σ) (delimiters : Delimiters) (limit : Nat) (init : σ)
    (history : List Request) :
    let s := ((Session.start delimiters limit init).answerAll host history).2
    ∃ b : BareSession σ, Engine.Activity.Mirrors ⟨s.engine, s.host, [], []⟩ b ∧
      b.delimiters = delimiters ∧ b.host = s.host ∧
      b.world host = ⟨delimiters, s.engine.partials, s.engine.limit, host⟩ := by
  intro s
  obtain ⟨-, hlast⟩ := (Session.represents_start delimiters limit init).answerAll host history
  let b := ((BareSession.start delimiters limit init).answerAll host history).2
  have hmirrors : Engine.Activity.Mirrors ⟨s.engine, s.host, [], []⟩ b := hlast.engine
  have hpair : b.delimiters = delimiters := BareSession.delimiters_answerAll host _ history
  refine ⟨b, hmirrors, hpair, hmirrors.host.symm, ?_⟩
  unfold BareSession.world
  rw [hpair, ← hmirrors.partials, ← hmirrors.limit]

/-- After any requests, a source is rendered to the text that evaluating it gives, or fails with the
failure of the evaluation. -/
theorem Session.render_of_evaluation (host : Host σ) (delimiters : Delimiters) (limit : Nat)
    (init : σ) (history : List Request) (source : String) (view : Value) :
    let s := ((Session.start delimiters limit init).answerAll host history).2
    ∃ a, match Evaluation.ofTemplate ⟨delimiters, s.engine.partials, s.engine.limit, host⟩ source
        view ⟨s.host, []⟩ with
      | .ok text _ =>
        Engine.render host source view ⟨s.engine, s.host, [], []⟩ = .ok (String.ofList text) a
      | .error failure _ =>
        ∃ e, e.failure? = some failure ∧
          Engine.render host source view ⟨s.engine, s.host, [], []⟩ = .error e a := by
  intro s
  obtain ⟨b, hmirrors, -, hhost, hworld⟩ :=
    Session.exists_mirrors host delimiters limit init history
  obtain ⟨a, hrender, -, -⟩ := hmirrors.render rfl host source view
  have hcomes := b.render_comesTo host source view
  rw [hworld, hhost] at hcomes
  refine ⟨a, ?_⟩
  rw [hrender]
  unfold Rendered.ComesTo at hcomes
  unfold Rendered.outcome
  cases hfailure : (b.render host source view).failure with
  | none =>
    rw [hfailure] at hcomes
    dsimp only at hcomes ⊢
    rw [hcomes]
    dsimp only
    rw [String.ofList_toList]
  | some e =>
    rw [hfailure] at hcomes
    obtain ⟨failure, he, hevaluation⟩ := hcomes
    dsimp only
    rw [hevaluation]
    exact ⟨e, he, rfl⟩

/-- The kind of the error that reports the failure. -/
def Failure.kind : Failure → ErrorKind
  | .flawed fault _ => fault.kind
  | .includeLimit _ => .maxIncludeDepth

/-- The error that reports a failure has its kind. -/
theorem Error.kind_of_failure? {e : Error} {failure : Failure} (h : e.failure? = some failure) :
    e.kind = failure.kind := by
  cases e with
  | flawed finding =>
    obtain rfl := Option.some.inj h
    rfl
  | includeLimit limit =>
    obtain rfl := Option.some.inj h
    rfl
  | device reason => cases h
  | conversion cause => cases h

/-- The text that an engine has rendered, or the kind of its error. -/
def Engine.textOrKind : EStateM.Result Error (Activity σ) String → Except ErrorKind String
  | .ok text _ => .ok text
  | .error e _ => .error e.kind

/-- The text that an evaluation has given, or the kind of its failure. -/
def Evaluation.textOrKind :
    EStateM.Result Failure (Inquiry σ) (List Char) → Except ErrorKind String
  | .ok text _ => .ok (String.ofList text)
  | .error failure _ => .error failure.kind

/-- After any requests, rendering a source comes to the same text or kind as evaluating it. -/
theorem Session.textOrKind_render (host : Host σ) (delimiters : Delimiters) (limit : Nat)
    (init : σ) (history : List Request) (source : String) (view : Value) :
    let s := ((Session.start delimiters limit init).answerAll host history).2
    Engine.textOrKind (Engine.render host source view ⟨s.engine, s.host, [], []⟩) =
      Evaluation.textOrKind (Evaluation.ofTemplate
        ⟨delimiters, s.engine.partials, s.engine.limit, host⟩ source view ⟨s.host, []⟩) := by
  intro s
  obtain ⟨a, ha⟩ := Session.render_of_evaluation host delimiters limit init history source view
  cases hevaluation : Evaluation.ofTemplate
      ⟨delimiters, s.engine.partials, s.engine.limit, host⟩ source view ⟨s.host, []⟩ with
  | ok text i =>
    rw [hevaluation] at ha
    rw [ha]
    rfl
  | error failure i =>
    rw [hevaluation] at ha
    obtain ⟨e, he, hrender⟩ := ha
    rw [hrender, Engine.textOrKind, Evaluation.textOrKind, Error.kind_of_failure? he]

/-- After any requests, an engine renders a source to the text that evaluating its tree gives, or
fails with the failure of the evaluation: the same fault of the same text, or the same limit.
Either way it asks its host the same questions. -/
theorem Engine.render_eq_evaluation (host : Host σ) (delimiters : Delimiters) (limit : Nat)
    (init : σ) (history : List Request) (source : String) (view : Value) :
    let s := ((Session.start delimiters limit init).answerAll host history).2
    let evaluation := Evaluation.ofTemplate ⟨delimiters, s.engine.partials, s.engine.limit, host⟩
      source view ⟨s.host, []⟩
    match Engine.render host source view ⟨s.engine, s.host, [], []⟩ with
    | .ok text a => evaluation = .ok text.toList ⟨a.host, a.calls⟩
    | .error e a =>
      ∃ failure, e.failure? = some failure ∧ evaluation = .error failure ⟨a.host, a.calls⟩ := by
  intro s evaluation
  obtain ⟨-, hlast⟩ := (Session.represents_start delimiters limit init).answerAll host history
  let b := ((BareSession.start delimiters limit init).answerAll host history).2
  let r := b.render host source view
  have hmirrors : Engine.Activity.Mirrors ⟨s.engine, s.host, [], []⟩ b := hlast.engine
  obtain ⟨a, hrender, hcalls, ha⟩ := hmirrors.render rfl host source view
  have hhost : a.host = r.host := ha.host
  have hpair : b.delimiters = delimiters := BareSession.delimiters_answerAll host _ history
  have hworld : (⟨delimiters, s.engine.partials, s.engine.limit, host⟩ : World σ) =
      b.world host := by
    unfold BareSession.world
    rw [hpair, ← hmirrors.partials, ← hmirrors.limit]
  have hcomes : r.ComesTo evaluation := by
    show r.ComesTo (Evaluation.ofTemplate _ source view ⟨s.host, []⟩)
    rw [hworld, show s.host = b.host from hmirrors.host]
    exact b.render_comesTo host source view
  rw [hrender]
  change match r.outcome a with | .ok text a => _ | .error e a => _
  unfold Rendered.outcome
  unfold Rendered.ComesTo at hcomes
  cases hfailure : r.failure with
  | none =>
    rw [hfailure] at hcomes
    dsimp only at hcomes ⊢
    rw [hcomes, hhost, show a.calls = r.calls from hcalls]
  | some e =>
    rw [hfailure] at hcomes
    obtain ⟨failure, he, hevaluation⟩ := hcomes
    refine ⟨failure, he, ?_⟩
    rw [hevaluation, hhost, show a.calls = r.calls from hcalls]

/-- A lambda doubles the text of its section, which holds a variable, and a partial on a line of its
own is indented.  The tree evaluates to what is rendered, and the lambda is asked once. -/
theorem Engine.render_eq_evaluation_doubled :
    let host : Host Nat := ⟨fun _ raw n => (raw.getD "" ++ raw.getD "", n + 1)⟩
    let source := "\x7b\x7b#f\x7d\x7d\x7b\x7bx\x7d\x7d,\x7b\x7b/f\x7d\x7d\n  \x7b\x7b>p\x7d\x7d\n"
    let view : Value := .map [("f", .lambda ⟨0, .block⟩), ("x", .text "<")]
    let history : List Request := [.addPartial "p" "\x7b\x7b&x\x7d\x7d\n"]
    let s := ((Session.start .standard 64 0).answerAll host history).2
    let calls : List Call := [⟨⟨0, .block⟩, some "\x7b\x7bx\x7d\x7d,"⟩]
    (s.answer host (.render source (.direct view))).1.answer = .text "&lt;,&lt;,\n  <\n" ∧
      Evaluation.ofTemplate ⟨.standard, s.engine.partials, s.engine.limit, host⟩ source view
        ⟨s.host, []⟩ = .ok "&lt;,&lt;,\n  <\n".toList ⟨1, calls⟩ := by
  intro host source view history s calls
  refine ⟨by decide +kernel, ?_⟩
  have hrender : (match Engine.render host source view ⟨s.engine, s.host, [], []⟩ with
      | .ok text a => some (text, a.host, a.calls)
      | .error _ _ => none) = some ("&lt;,&lt;,\n  <\n", 1, calls) := by decide +kernel
  have hevaluation := Engine.render_eq_evaluation host .standard 64 0 history source view
  dsimp only at hevaluation
  cases hrun : Engine.render host source view ⟨s.engine, s.host, [], []⟩ with
  | ok text a =>
    rw [hrun] at hrender
    obtain ⟨rfl, hhost, hcalls⟩ : text = "&lt;,&lt;,\n  <\n" ∧ a.host = 1 ∧ a.calls = calls := by
      simpa using hrender
    rw [show Engine.render host source view _ = _ from hrun] at hevaluation
    refine Eq.trans hevaluation ?_
    rw [hhost, hcalls]
  | error e a =>
    rw [hrun] at hrender
    cases hrender

end Mustache
