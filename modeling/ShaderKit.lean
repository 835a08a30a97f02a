import ShaderKit.CompilerLog
import ShaderKit.Main
import ShaderKit.Proofs.ArgumentLists
import ShaderKit.Proofs.CompilerErrors
import ShaderKit.Proofs.ConditionReading
import ShaderKit.Proofs.ConditionalTree
import ShaderKit.Proofs.DefinednessTest
import ShaderKit.Proofs.DumpVerdict
import ShaderKit.Proofs.EffectTruncation
import ShaderKit.Proofs.ExpansionMachine
import ShaderKit.Proofs.ExpansionSeam
import ShaderKit.Proofs.FaultyLine
import ShaderKit.Proofs.FilesAlike
import ShaderKit.Proofs.GroupStack
import ShaderKit.Proofs.GuardedEffect
import ShaderKit.Proofs.IncludePaste
import ShaderKit.Proofs.IncludeProtocol
import ShaderKit.Proofs.ItemOrder
import ShaderKit.Proofs.Lexemes
import ShaderKit.Proofs.LineSplicing
import ShaderKit.Proofs.MacroSpacing
import ShaderKit.Proofs.PredefinedMacro
import ShaderKit.Proofs.ReportIndent
import ShaderKit.Proofs.ReportPlaces
import ShaderKit.Proofs.ResolverHistory
import ShaderKit.Proofs.ShaderTruncation
import ShaderKit.Proofs.StrippedLine
import ShaderKit.Proofs.TableReading
import ShaderKit.Proofs.TokenGluing
import ShaderKit.Proofs.TokenNeighbours
import ShaderKit.Proofs.UniformDemand
import ShaderKit.Proofs.UniformFlag
import ShaderKit.Proofs.UniformRuns
import ShaderKit.Proofs.UnmentionedMacro
