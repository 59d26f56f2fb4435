import TwigLayout.Fault

/-!
# Log

What a run notes while it works. A `Logged` computation ends with a value or a fault, and keeps the
notes made so far in both cases.
-/

namespace TwigLayout

inductive Level where
  | debug
  | warning
  | error
  deriving DecidableEq, Repr

def Level.label : Level → String
  | .debug => "DEBUG"
  | .warning => "WARNING"
  | .error => "ERROR"

/-- The part of the program that a note comes from. -/
inductive Source where
  | commandLine
  | provider
  | pipeline
  | shields
  | projectOptions
  | engine
  | components
  | merges
  | routes
  deriving DecidableEq, Repr

/-- The name under which a part of the program logs. -/
def Source.label : Source → String
  | .commandLine => "twig_cs_formatter.twig_cs_formatter"
  | .provider => "twig_cs_formatter.provider"
  | .pipeline => "twig_cs_formatter.pipeline.generator"
  | .shields => "twig_cs_formatter.pipeline.shields.base"
  | .projectOptions => "twig_cs_formatter.pipeline.formatters.config_resolver"
  | .engine => "twig_cs_formatter.pipeline.formatters.prettier_formatter"
  | .components => "twig_cs_formatter.pipeline.reflow.component_attributes"
  | .merges => "twig_cs_formatter.pipeline.reflow.merge_expressions"
  | .routes => "twig_cs_formatter.pipeline.reflow.path_parameters"

structure Note where
  level : Level
  source : Source
  message : String
  deriving DecidableEq, Repr

/-- A note without its source. -/
def Note.short (n : Note) : String := s!"{n.level.label} {n.message}"

/-- A note with its source. -/
def Note.long (n : Note) : String := s!"{n.level.label} {n.source.label}: {n.message}"

/-- The outcome of a computation that may fail, with the notes it made in order. -/
structure Logged (α : Type) where
  result : Except Fault α
  log : List Note

namespace Logged

variable {α β : Type}

instance : Monad Logged where
  pure a := ⟨.ok a, []⟩
  bind x f :=
    match x.result with
    | .error e => ⟨.error e, x.log⟩
    | .ok a =>
      let y := f a
      ⟨y.result, x.log ++ y.log⟩

instance : LawfulMonad Logged := .mk' Logged
  (fun ⟨r, _⟩ => by cases r <;> simp [Functor.map])
  (fun _ _ => by simp [bind, pure])
  (fun ⟨r, _⟩ f _ => by
    cases r with
    | error => rfl
    | ok a =>
      simp only [bind]
      cases (f a).result <;> simp)

instance : MonadLift (Except Fault) Logged where
  monadLift x := ⟨x, []⟩

def note (level : Level) (source : Source) (message : String) : Logged Unit :=
  ⟨.ok (), [⟨level, source, message⟩]⟩

def debug (source : Source) (message : String) : Logged Unit := note .debug source message

def warning (source : Source) (message : String) : Logged Unit := note .warning source message

end Logged

end TwigLayout
