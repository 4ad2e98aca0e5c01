/-!
# Compiler options
-/

namespace InlineCache

/-- Choices that change how stubs are compiled and attached, never what they compute. -/
structure Options where
  /-- Reuse the latest bailout when the live state has not changed since. -/
  shareBailouts : Bool := true
  /-- Look code up in the table of compiled stubs before compiling. -/
  useCodeTable : Bool := true
deriving DecidableEq

namespace Options

/-- The defaults, with each choice switched off by a variable of the environment set to `1`. -/
def ofEnvironment (lookup : String → Option String) : Options where
  shareBailouts := lookup "CACHEIR_NO_SHARED_FAILURE_PATHS" != some "1"
  useCodeTable := lookup "CACHEIR_NO_STUB_CODE_CACHE" != some "1"

end Options
end InlineCache
