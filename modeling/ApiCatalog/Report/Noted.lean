import ApiCatalog.Report.Diagnostic

namespace ApiCatalog

structure Noted (α : Type) where
  value : α
  diagnostics : List Diagnostic := []
  log : List Record := []

namespace Noted

variable {α β : Type}

instance : Monad Noted where
  pure a := { value := a }
  bind x f :=
    let y := f x.value
    { value := y.value, diagnostics := x.diagnostics ++ y.diagnostics, log := x.log ++ y.log }

def note (d : Diagnostic) : Noted Unit where
  value := ()
  diagnostics := [d]

def write (level : Level) (channel : Channel) (message : String) : Noted Unit where
  value := ()
  log := [⟨level, channel, message⟩]

def writeAll (records : List Record) : Noted Unit where
  value := ()
  log := records

@[simp] theorem value_pure (a : α) : (pure a : Noted α).value = a := rfl

@[simp] theorem diagnostics_pure (a : α) : (pure a : Noted α).diagnostics = [] := rfl

@[simp] theorem log_pure (a : α) : (pure a : Noted α).log = [] := rfl

@[simp] theorem value_bind (x : Noted α) (f : α → Noted β) : (x >>= f).value = (f x.value).value := rfl

@[simp] theorem diagnostics_bind (x : Noted α) (f : α → Noted β) :
    (x >>= f).diagnostics = x.diagnostics ++ (f x.value).diagnostics := rfl

@[simp] theorem log_bind (x : Noted α) (f : α → Noted β) :
    (x >>= f).log = x.log ++ (f x.value).log := rfl

end Noted

end ApiCatalog
