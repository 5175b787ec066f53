import FrameScript.Proofs.Code.Assembly
import Mathlib.Data.List.Forall2

/-!
# Compiled routines

A routine is a function of a script or its top level. Every chunk that a script
compiles to has the code that the layout of its routine lists.
-/

namespace FrameScript

/-- What a chunk is compiled from. -/
structure Routine where
  name : String
  source : String
  params : List String
  body : List Stmt
  /-- Whether `let` directly in the body defines a global. -/
  global : Bool

namespace Routine

def ofDecl (source : String) (f : FunctionDecl) : Routine :=
  ⟨f.name, source, f.params, f.body, false⟩

def main (source : String) (body : List Stmt) : Routine :=
  ⟨mainChunkName, source, [], body, true⟩

/-- The place where the body begins: the parameters are the first locals. -/
def site (r : Routine) : Site := ⟨r.global, r.params.reverse.map fun p => ⟨p, .plain⟩, none, []⟩

def ending (r : Routine) : Site := r.site.afterAll r.body

/-- The body, and a null that is returned after it. -/
def points (r : Routine) : List Point :=
  Stmt.pointsAll r.site 0 r.body ++
    [⟨r.ending.shape, .push .null⟩, ⟨r.ending.shape.push, .ret⟩]

/-- The chunk that a routine compiles to, up to its lines. -/
structure Compiles (r : Routine) (chunk : Chunk) : Prop where
  name : chunk.name = r.name
  source : chunk.source = r.source
  arity : chunk.arity = r.params.length
  code : chunk.code.toList = r.points.map (·.instr)

theorem site_shape_slots (r : Routine) :
    r.site.shape.slots = List.replicate r.params.length .plain := by
  simp [site, Site.shape, Function.comp_def, List.map_const']

end Routine

namespace Builder

theorem params_locals (params : List String) (b : Builder) :
    (params.foldl (fun b p => b.declare p) b).locals =
        params.reverse.map (fun p => ⟨p, b.depth⟩) ++ b.locals ∧
      (params.foldl (fun b p => b.declare p) b).depth = b.depth ∧
      (params.foldl (fun b p => b.declare p) b).code = b.code ∧
      (params.foldl (fun b p => b.declare p) b).loops = b.loops ∧
      (params.foldl (fun b p => b.declare p) b).handlers = b.handlers := by
  induction params generalizing b with
  | nil => simp
  | cons p rest ih =>
    obtain ⟨locals, depth, code, loops, handlers⟩ := ih (b.declare p)
    refine ⟨?_, depth, code, loops, handlers⟩
    rw [List.foldl_cons, locals]
    simp [declare]

theorem finish_compiles {b next : Builder} {r : Routine} (stands : b.Stands r.site)
    (empty : b.code = #[]) (h : b.stmts r.body = .ok next) :
    r.Compiles (next.finish r.name r.source r.params.length) where
  name := rfl
  source := rfl
  arity := rfl
  code := by
    have nested : r.site.Nested := fun l h => by simp [Routine.site] at h
    have outside : r.site.withExit 0 = r.site := rfl
    have compiled := (stmts_assembles stands nested r.body h).grows.code
    rw [outside, show b.here = 0 by simp [here, empty]] at compiled
    simp [finish, emit, compiled, empty, Routine.points]

end Builder

theorem compileFunction_compiles {source : String} {f : FunctionDecl} {chunk : Chunk}
    (h : compileFunction source f = .ok chunk) : (Routine.ofDecl source f).Compiles chunk := by
  obtain ⟨b, compiled, h⟩ := bind_ok h
  cases h
  obtain ⟨locals, depth, code, loops, handlers⟩ :=
    Builder.params_locals f.params (Builder.new 1 f.line)
  have stands : (f.params.foldl (fun b p => b.declare p) (Builder.new 1 f.line)).Stands
      (Routine.ofDecl source f).site := by
    refine ⟨?_, ?_, ?_, ?_, ?_⟩
    · rw [Builder.Names, locals]
      simp [Routine.ofDecl, Routine.site, Builder.new]
    · rw [locals, depth]
      simp [Builder.new]
    · rw [depth]
      simp [Builder.new, Routine.ofDecl, Routine.site]
    · rw [handlers]
      rfl
    · rw [loops]
      rfl
  exact Builder.finish_compiles stands code compiled

theorem compileFunctions_each {source : String} {seen : List String}
    {functions : List FunctionDecl} {chunks : List Chunk}
    (h : compileFunctions source seen functions = .ok chunks) :
    List.Forall₂ (fun f chunk => compileFunction source f = .ok chunk) functions chunks := by
  induction functions generalizing seen chunks with
  | nil =>
    cases h
    exact .nil
  | cons f rest ih =>
    rw [compileFunctions] at h
    split at h
    · cases h
    · obtain ⟨first, compiled, h⟩ := bind_ok h
      obtain ⟨others, compiled', h⟩ := bind_ok h
      cases h
      exact .cons compiled (ih compiled')

def Script.routines (source : String) (script : Script) : List Routine :=
  Routine.main source script.body :: script.functions.map (Routine.ofDecl source)

def CompiledScript.chunks (c : CompiledScript) : List Chunk := c.main :: c.functions

theorem compile_functions {source : String} {script : Script} {compiled : CompiledScript}
    (h : compile source script = .ok compiled) :
    List.Forall₂ (fun f chunk => (Routine.ofDecl source f).Compiles chunk) script.functions
      compiled.functions := by
  obtain ⟨functions, declared, h⟩ := bind_ok h
  obtain ⟨b, body, h⟩ := bind_ok h
  cases h
  exact (compileFunctions_each declared).imp fun _ _ => compileFunction_compiles

theorem compile_main {source : String} {script : Script} {compiled : CompiledScript}
    (h : compile source script = .ok compiled) :
    (Routine.main source script.body).Compiles compiled.main := by
  obtain ⟨functions, declared, h⟩ := bind_ok h
  obtain ⟨b, body, h⟩ := bind_ok h
  cases h
  have stands : (Builder.new 0 1).Stands (Routine.main source script.body).site :=
    ⟨rfl, by simp [Builder.new], by simp [Builder.new, Routine.main, Routine.site], rfl, rfl⟩
  exact Builder.finish_compiles stands rfl body

/-- Every chunk of a compiled script has the code of one of the script's routines. -/
theorem compile_compiles {source : String} {script : Script} {compiled : CompiledScript}
    (h : compile source script = .ok compiled) :
    ∀ chunk ∈ compiled.chunks, ∃ r ∈ script.routines source, r.Compiles chunk := by
  intro chunk mem
  rcases List.mem_cons.mp mem with rfl | mem
  · exact ⟨_, List.mem_cons_self, compile_main h⟩
  · obtain ⟨i, low, rfl⟩ := List.getElem_of_mem mem
    obtain ⟨same, compiles⟩ := List.forall₂_iff_get.mp (compile_functions h)
    have low' : i < script.functions.length := same ▸ low
    exact ⟨_, List.mem_cons_of_mem _ (List.mem_map_of_mem (List.getElem_mem low')),
      compiles i low' low⟩

end FrameScript
