import AccessControl.Collection.Lru
import AccessControl.Template.Compile

/-!
# Remembered templates

A `TemplateMemo` remembers the patterns of the templates it compiled last, each with its tags.
Failures are not remembered.  A pattern is made without holding on to the table, so the table is looked
up again before the pattern is kept (`TemplateMemo.keep`); how it is made is left open
(`TemplateMemo.compileBy`).
-/

namespace AccessControl

/-- A template with its tags. -/
structure TemplateKey where
  template : Bytes
  start : UInt8
  stop : UInt8
  deriving DecidableEq

/-- The pattern of a template, made anew. -/
def TemplateKey.compile (key : TemplateKey) : Except TemplateError CompiledTemplate :=
  Template.compile key.template key.start key.stop

/-- The patterns of the templates compiled last. -/
abbrev TemplateMemo := Lru TemplateKey CompiledTemplate

namespace TemplateMemo

/-- The number of patterns remembered unless it is chosen. -/
def defaultCapacity : Nat := 512

/-- A new pattern, or the one that is remembered by now, which is shared. -/
def keep (memo : TemplateMemo) (key : TemplateKey) (t : CompiledTemplate) :
    CompiledTemplate × TemplateMemo :=
  if memo.contains key then
    match memo.get? key with
    | (some known, memo) => (known, memo)
    | (none, memo) => (t, memo.put key t)
  else (t, memo.put key t)

/-- What a compilation comes to; a pattern is kept. -/
def learn (memo : TemplateMemo) (key : TemplateKey) :
    Except TemplateError CompiledTemplate → Except TemplateError CompiledTemplate × TemplateMemo
  | .ok t => (keep memo key t).map .ok id
  | .error e => (.error e, memo)

/-- The pattern of a template, remembered or made by `make`. -/
def compileBy {m : Type → Type} [Monad m]
    (make : TemplateKey → m (Except TemplateError CompiledTemplate)) (memo : TemplateMemo)
    (key : TemplateKey) : m (Except TemplateError CompiledTemplate × TemplateMemo) :=
  match memo.get? key with
  | (some t, memo) => return (.ok t, memo)
  | (none, memo) => return learn memo key (← make key)

/-- The pattern of a template, remembered or new. -/
def compile (memo : TemplateMemo) (template : Bytes) (start stop : UInt8) :
    Except TemplateError CompiledTemplate × TemplateMemo :=
  Id.run (compileBy (fun key => return key.compile) memo ⟨template, start, stop⟩)

end TemplateMemo

end AccessControl
