namespace InkSyntax

/-!
# Options

What a user can set about reading scripts.
-/

/-- How scripts are read. -/
structure Options where
  /-- How deeply rules may nest. -/
  maxStackDepth : Nat := 200
  /-- Whether warnings count as errors. -/
  warningsAsErrors : Bool := false
  deriving DecidableEq, Repr

end InkSyntax
