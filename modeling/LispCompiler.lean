import LispCompiler.Resolution
import LispCompiler.CallSites
import LispCompiler.Annotable
import LispCompiler.Shapes
import LispCompiler.Simplification
import LispCompiler.Sharing
import LispCompiler.Codegen
import LispCompiler.Acceptance
import LispCompiler.Merge
import LispCompiler.CodegenRuns
import LispCompiler.Surface
