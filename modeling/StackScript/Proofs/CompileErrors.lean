import StackScript.Proofs.LoweringFaults

/-!
# Errors of compilation

The stages of compilation rely on each other: the parser numbers the names that
the resolver notes once, the resolver knows all that code is made from, and the
chunks and labels that assembly asks for are there.  So no error is an internal
one, and each tells of the source text.
-/

namespace StackScript

abbrev Limited {α : Type} (step : Except AssembleError α) : Prop :=
  Ends step AssembleError.IsLimit fun _ => True

/-!
## Finished chunks
-/

namespace Draft

variable {d : Draft} {chunks : Nat}

theorem limited_jumpInstruction (d : Draft) (opcode : Opcode) (target : Label) (distance : Nat) :
    Limited (d.jumpInstruction opcode target distance) :=
  .ite (fun _ => trivial) fun _ => trivial

/-- When no label is open any more, only the distance of a jump can be wrong. -/
theorem Consistent.resolve (h : d.Consistent [] [] chunks) {directive : Directive}
    (hmem : directive ∈ d.directives.toList) : Limited (d.resolve directive) := by
  have haims := h.directives directive hmem
  cases directive with
  | instr i => trivial
  | jump target here =>
      rcases haims with ⟨htarget, behind, hhere⟩
      rcases h.placed target htarget List.not_mem_nil with ⟨there, hthere⟩
      rw [Draft.resolve, labelPosition_eq_ok_iff.mpr hthere, labelPosition_eq_ok_iff.mpr hhere]
      exact .ite (fun _ => d.limited_jumpInstruction _ _ _) fun _ =>
        d.limited_jumpInstruction _ _ _
  | jumpIfFalse target here =>
      rcases haims with ⟨htarget, behind, hhere, hforward⟩
      rcases h.placed target htarget List.not_mem_nil with ⟨there, hthere⟩
      rw [Draft.resolve, labelPosition_eq_ok_iff.mpr hthere, labelPosition_eq_ok_iff.mpr hhere]
      refine .ite (fun hback => ?_) fun _ => d.limited_jumpInstruction _ _ _
      exact absurd (hforward there hthere) (Nat.not_le.mpr hback)

theorem Consistent.code (h : d.Consistent [] [] chunks) : Limited d.code := by
  refine .ite (fun _ => ?_) fun _ => trivial
  have hresolved : ∀ directive ∈ d.directives.toList, Limited (d.resolve directive) :=
    fun _ => h.resolve
  exact (Ends.mapM hresolved).bind fun _ _ _ => trivial

end Draft

namespace Assembler

structure Complete (a : Assembler) : Prop where
  main : ∃ main, a.main? = some main ∧ main < a.entries.size
  drafts : ∀ ref, ref < a.entries.size ->
    ∃ d, a.draft? ref = some d ∧ d.Consistent [] [] a.entries.size

namespace Complete

variable {a : Assembler} {d : Draft}

theorem chunkId (h : a.Complete) {ref : ChunkRef} (href : ref < a.entries.size) :
    Limited (a.chunkId ref) := by
  rcases h.main with ⟨main, hmain, _⟩
  unfold Assembler.chunkId
  simp only [hmain, Nat.not_le.mpr href, if_false]
  exact .ite (fun _ => trivial) fun _ => trivial

theorem ordered (h : a.Complete) :
    Ends a.ordered AssembleError.IsLimit
      fun drafts => ∀ d ∈ drafts, d.Consistent [] [] a.entries.size := by
  rcases h.main with ⟨main, hmain, hlt⟩
  unfold Assembler.ordered
  simp only [hmain]
  refine .ite (fun _ => ?_) fun _ => trivial
  apply Ends.mapM
  intro ref href
  have hrefLt : ref < a.entries.size := by
    rw [order, List.mem_cons, List.mem_filter, List.mem_range] at href
    rcases href with rfl | ⟨href, _⟩
    · exact hlt
    · exact href
  rcases h.drafts ref hrefLt with ⟨d, hd, hconsistent⟩
  simp only [hd]
  exact hconsistent

theorem finish (h : a.Complete) (hd : d.Consistent [] [] a.entries.size) :
    Limited (d.finish a.chunkId) := by
  have hconstants : ∀ c ∈ d.pool.constants, Limited (Draft.finishConstant a.chunkId c) := by
    intro c hc
    have hwithin := hd.constants c hc
    cases c with
    | function ref => exact (h.chunkId hwithin).map fun _ _ => trivial
    | _ => trivial
  refine (Ends.mapM hconstants).bind fun _ _ _ => ?_
  exact hd.code.bind fun _ _ _ => trivial

theorem finalize (h : a.Complete) : Limited a.finalize := by
  refine h.ordered.bind fun drafts _ hdrafts => ?_
  have hchunks := Ends.mapM fun d hd => h.finish (hdrafts d hd)
  exact hchunks.bind fun _ _ _ => trivial

theorem limited_writeCode {labelsAt : Nat -> List Label} {directives : List Directive}
    (h : ∀ directive ∈ directives, Limited (d.resolve directive)) (written : String)
    (position : Nat) : Limited (Listing.writeCode d labelsAt written position directives) := by
  induction directives generalizing written position with
  | nil => trivial
  | cons directive rest ih =>
      rw [List.forall_mem_cons] at h
      have htext : Limited (Listing.directiveText d position directive) := by
        refine h.1.bind fun i _ _ => ?_
        cases directive <;> trivial
      rw [Listing.writeCode]
      cases hdirective : Listing.directiveText d position directive with
      | ok text => exact ih h.2 _ _
      | error e => exact htext.fault hdirective

theorem chunkText (h : a.Complete) (hd : d.Consistent [] [] a.entries.size) :
    Limited (Listing.chunkText a d) := by
  have hconstants : ∀ c ∈ d.pool.constants, Limited (Listing.constantText a c) := by
    intro c hc
    have hwithin := hd.constants c hc
    cases c with
    | function ref => exact (h.chunkId hwithin).bind fun _ _ _ => trivial
    | _ => trivial
  refine (h.chunkId hd.self).bind fun _ _ _ => ?_
  refine (Ends.mapM hconstants).bind fun _ _ _ => ?_
  exact limited_writeCode (fun _ => hd.resolve) _ _

theorem listing (h : a.Complete) : Limited a.listing := by
  refine h.ordered.bind fun drafts _ hdrafts => ?_
  have htexts := Ends.mapM fun d hd => h.chunkText (hdrafts d hd)
  exact htexts.bind fun _ _ _ => trivial

theorem compilation (h : a.Complete) : Limited a.compilation := by
  refine h.finalize.bind fun _ _ _ => ?_
  exact h.listing.bind fun _ _ _ => trivial

end Complete
end Assembler

/-!
## Generated programs
-/

/-- Why a program with resolved names is not compiled. -/
inductive Program.Uncompilable (program : Program) (builtins : List Builtin) :
    CompileError -> Prop where
  | assignment {e : CompileError} (h : program.AssignsBuiltin builtins e) :
      Uncompilable program builtins e
  | limit {e : AssembleError} (h : e.IsLimit) : Uncompilable program builtins (.assemble e)

theorem Assembly.Safe.runFrom {α : Type} {step : Assembly α} {P : Assembler -> Prop}
    {Q : α -> Assembler -> Prop} {a : Assembler} (h : Safe step P Q) (ha : P a)
    (program : Program) (builtins : List Builtin) :
    Ends (runFrom a step) (program.Uncompilable builtins) fun p => Q p.1 p.2 := by
  have hrun := h a ha
  unfold Assembly.runFrom
  cases hstep : step a with
  | ok x a' =>
      rw [hstep] at hrun
      exact hrun.1
  | error e a' =>
      rw [hstep] at hrun
      exact .limit hrun

namespace Builtin

open Fragment

theorem supported_of_mem_standard {b : Builtin} (h : b ∈ standard) (names : List String) :
    b.code.Supported names := by
  simp only [standard, List.mem_cons, List.not_mem_nil, or_false] at h
  have hcompute : ∀ opcode, (binary (getLocal 1) (int 1) opcode).Supported names :=
    fun _ => ⟨trivial, trivial, trivial, trivial⟩
  rcases h with rfl | rfl | rfl
  · have hcall : (call self [binary (getLocal 1) (int 1) .subtract]).Supported names :=
      ⟨by decide, trivial, hcompute _, trivial⟩
    exact ⟨⟨⟨hcompute _, ⟨trivial, trivial, trivial⟩, trivial⟩, trivial⟩,
      ⟨⟨trivial, hcall, trivial, trivial⟩, trivial, trivial⟩, trivial⟩
  · exact ⟨⟨trivial, trivial, trivial⟩, ⟨trivial, trivial, trivial⟩, trivial⟩
  · exact ⟨trivial, trivial, trivial⟩

theorem HasStandardCode.keeps {b : Builtin} (h : b.HasStandardCode) (names : List String) :
    Emit.Keeps names b.code.emit := by
  rcases h with ⟨other, hmem, hcode⟩
  rw [hcode]
  exact Fragment.keeps_of_structured _ (structured_of_mem_standard hmem)
    (supported_of_mem_standard hmem names)

end Builtin

theorem Assembly.Safe.addBuiltins {builtins : List Builtin}
    (hbuiltins : ∀ b ∈ builtins, b.HasStandardCode) (names : List String) :
    Safe (addBuiltins builtins) (·.Ready names)
      fun _ a => a.Ready (builtins.map (·.name) ++ names) := by
  induction builtins generalizing names with
  | nil => exact fun a ha => ⟨ha, Nat.le_refl _⟩
  | cons b rest ih =>
      rw [List.forall_mem_cons] at hbuiltins
      have hfirst : Safe (Assembly.addFunction b.name b.arity b.code) (·.Ready names)
          fun ref a => a.Ready (b.name :: names) ∧ ref < a.entries.size := by
        apply addFunctionChunk (hbuiltins.1.keeps _)
        intro n hn
        rcases List.mem_cons.mp hn with rfl | hn
        · exact Or.inr rfl
        · exact Or.inl hn
      rw [Assembly.addBuiltins]
      refine hfirst.bind fun ref => (ih hbuiltins.2 (b.name :: names)).imp (fun a => And.left) ?_
      intro _ a ha
      apply ha.of_subset
      intro n hn
      simp only [List.map_cons, List.cons_append, List.mem_cons, List.mem_append] at hn ⊢
      rcases hn with hfirst | hrest | hold
      · exact Or.inr (Or.inl hfirst)
      · exact Or.inl hrest
      · exact Or.inr (Or.inr hold)

theorem Program.generate_ends {program : Program} {builtins : List Builtin} {r : Resolution}
    (hbuiltins : ∀ b ∈ builtins, b.HasStandardCode) (hlexical : program.Lexical builtins r)
    (hfits : CountsFitAll program.statements) :
    Ends (program.generate builtins r) (program.Uncompilable builtins)
      (·.Ready (builtins.map (·.name))) := by
  have hstart : Assembler.Ready [] {} :=
    ⟨.start, List.forall_mem_nil _, List.forall_mem_nil _⟩
  have hadd := (Assembly.Safe.addBuiltins hbuiltins []).runFrom hstart program builtins
  refine hadd.bind ?_
  intro p _ hready
  rcases p with ⟨_, a1⟩
  rw [List.append_nil] at hready
  have hlower := Resolution.lowerStmts_ends hlexical program.statements
    (fun _ _ _ hsplit => ⟨_, .outside hsplit⟩) hfits [] (List.forall_mem_nil _)
  refine (hlower.imp (fun _ => .assignment) fun _ h => h).bind ?_
  intro body hbody hsupported
  have hstructured : (Fragment.sequence body).Structured false :=
    Resolution.structured_of_lowerStmts _ (Resolution.lowerAll_eq_ok_iff.mp hbody)
  have hkeeps := Fragment.keeps_of_structured _ hstructured
    (Fragment.allSupported_iff.mpr hsupported)
  have hmain : Assembly.Safe (Assembly.addMain (.sequence body))
      (·.Ready (builtins.map (·.name)))
      fun ref a => a.Ready (builtins.map (·.name)) ∧ ref < a.entries.size :=
    .addChunk hkeeps fun _ => Or.inl
  exact (hmain.runFrom hready program builtins).bind fun p _ h => h.1

theorem Generated.complete {program : Program} {builtins : List Builtin} {r : Resolution}
    {a : Assembler} {names : List String} (g : Generated program builtins r a)
    (h : a.Ready names) : a.Complete where
  main := by
    refine ⟨g.before.length, g.main?_eq, ?_⟩
    rw [← Array.length_toList, g.entries]
    simp
  drafts := by
    intro ref href
    have hentry : a.entries[ref]? = some a.entries[ref] := Array.getElem?_eq_getElem href
    have hmem : a.entries[ref] ∈ a.entries.toList := Array.getElem_mem_toList href
    have hbuilt : ∀ {functions entries}, List.Forall₂ (Definition.Built a) functions entries ->
        ∀ entry ∈ entries, ∃ d, entry.draft = some d := by
      intro functions entries hall entry hin
      rcases forall₂_mem_right hall hin with ⟨_, _, _, d, _, _, hdraft, _⟩
      exact ⟨d, hdraft⟩
    have hdraft : ∃ d, a.entries[ref].draft = some d := by
      have hcases := hmem
      rw [g.entries, List.mem_append, List.mem_cons] at hcases
      rcases hcases with hbefore | hmain | hafter
      · exact hbuilt g.builtins_built _ hbefore
      · exact ⟨g.main, congrArg ChunkEntry.draft hmain⟩
      · exact hbuilt g.functions_built _ hafter
    rcases hdraft with ⟨d, hd⟩
    refine ⟨d, ?_, h.drafts _ hmem d hd⟩
    rw [Assembler.draft?, hentry]
    exact hd

/-!
## Compilation
-/

/-- The error tells of the source text.  What would be a slip of the compiler is
no such error. -/
def Error.OfSource (source : String) (builtins : List Builtin) : Error -> Prop
  | syntaxErrors errors => Program.parse source = .error errors
  | resolve (.resolvedTwice _ _) => False
  | resolve e =>
      ∃ program, Program.parse source = .ok program ∧ program.Faulty builtins e
  | compile (.unresolved _ _) | compile (.internal _) => False
  | compile (.notAssignable name span hint) =>
      ∃ program, Program.parse source = .ok program ∧
        program.AssignsBuiltin builtins (.notAssignable name span hint)
  | compile (.assemble e) => e.IsLimit
  | file _ => False

theorem Program.Faulty.ofSource {program : Program} {source : String} {builtins : List Builtin}
    {e : ResolveError} (hparse : parse source = .ok program) (h : program.Faulty builtins e) :
    (Error.resolve e).OfSource source builtins := by
  cases h with
  | undeclared hplace hfind hbuiltin =>
      exact ⟨program, hparse, .undeclared hplace hfind hbuiltin⟩
  | duplicate hplace hknown kind => exact ⟨program, hparse, .duplicate hplace hknown kind⟩
  | tooManyLocals hplace hinner hroom => exact ⟨program, hparse, .tooManyLocals hplace hinner hroom⟩

theorem Program.Uncompilable.ofSource {program : Program} {source : String}
    {builtins : List Builtin} {e : CompileError} (hparse : parse source = .ok program)
    (h : program.Uncompilable builtins e) : (Error.compile e).OfSource source builtins := by
  cases h with
  | assignment h =>
      cases h with
      | target hplace hfind hbuiltin =>
          exact ⟨program, hparse, .target hplace hfind hbuiltin⟩
  | limit h => exact h

theorem Program.resolve_ends {program : Program} {builtins : List Builtin}
    (hids : (program.bindings.map (·.id)).Nodup) (hblocks : program.blocks.Nodup) :
    Ends (program.resolve builtins) (program.Faulty builtins) (program.Lexical builtins) := by
  cases h : program.resolve builtins with
  | error e => exact faulty_of_resolve hids h
  | ok r =>
      rcases resolvesAll_of_resolve h hblocks with ⟨after, hprogram⟩
      exact lexical_of_resolvesAll hprogram

/-- A source text is compiled, or the error tells what is wrong with it. -/
theorem compile_error_ofSource {source : String} {builtins : List Builtin} {e : Error}
    (hbuiltins : ∀ b ∈ builtins, b.HasStandardCode) (h : compile source builtins = .error e) :
    e.OfSource source builtins := by
  have hends : Ends (compile source builtins) (Error.OfSource source builtins) fun _ => True := by
    unfold compile
    cases hparse : Program.parse source with
    | error errors => exact hparse
    | ok program =>
        rcases Program.ids_and_counts_of_parse hparse with ⟨hids, hfits⟩
        have hresolve : Ends (program.resolve builtins) (program.Faulty builtins)
            (program.Lexical builtins) :=
          Program.resolve_ends hids (Program.blocks_nodup_of_parse hparse)
        refine (hresolve.mapError fun _ hfault => hfault.ofSource hparse).bind ?_
        intro r _ hlexical
        have hgenerate := Program.generate_ends hbuiltins hlexical hfits
        refine (hgenerate.mapError fun _ hfault => hfault.ofSource hparse).bind ?_
        intro a ha hready
        rcases exists_generated (mapError_eq_ok_iff.mp ha) with ⟨g⟩
        exact (g.complete hready).compilation.mapError fun _ hlimit => hlimit
  exact hends.fault h

theorem compile_error_ofSource_duplicate :
    let source := "\x7b fn put() \x7b \x7d \x7d fn put() \x7b \x7d"
    let builtins := [{ Builtin.println with name := "put", arity := 7 }]
    (∀ b ∈ builtins, b.HasStandardCode) ∧
      compile source builtins = .error (.resolve (.duplicate "put" ⟨1, 21⟩ .global)) ∧
      Error.OfSource source builtins (.resolve (.duplicate "put" ⟨1, 21⟩ .global)) := by
  intro source builtins
  have hbuiltins : ∀ b ∈ builtins, b.HasStandardCode := by
    intro b hb
    cases List.mem_singleton.mp hb
    exact ⟨Builtin.println, by simp [Builtin.standard], rfl⟩
  have herror : compile source builtins = .error (.resolve (.duplicate "put" ⟨1, 21⟩ .global)) := by
    decide +kernel
  exact ⟨hbuiltins, herror, compile_error_ofSource hbuiltins herror⟩

end StackScript
