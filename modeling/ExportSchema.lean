import ExportSchema.World
import ExportSchema.Main
import ExportSchema.Proofs.Schema.Fragment
import ExportSchema.Proofs.Document
import ExportSchema.Proofs.Module.Session
import ExportSchema.Proofs.Expansion.Cycle
import ExportSchema.Proofs.Expansion.Frame
import ExportSchema.Proofs.TypeNode.Interface
import ExportSchema.Proofs.TypeNode.ArrayText
import ExportSchema.Proofs.TypeNode.InterfaceBody
import ExportSchema.Proofs.TypeNode.MemberStyle
import ExportSchema.Proofs.TypeNode.Method
import ExportSchema.Proofs.TypeNode.QuotedKey
import ExportSchema.Proofs.TypeNode.ObjectLiteral
import ExportSchema.Proofs.TypeNode.RoundTrip
import ExportSchema.Proofs.Module.Flattening
import ExportSchema.Proofs.EntryPoint
import ExportSchema.Proofs.Repository
import ExportSchema.Proofs.Compute
import ExportSchema.Proofs.Language
import ExportSchema.Proofs.Bracket.Closing
import ExportSchema.Proofs.Bracket.Cutting
import ExportSchema.Proofs.TypeNode.Nullish
import ExportSchema.Proofs.Schema.Nullability
import ExportSchema.Proofs.Schema.Literal
import ExportSchema.Proofs.Schema.Required
import ExportSchema.Proofs.Module.Enumeration
import ExportSchema.Proofs.Module.Return
import ExportSchema.Proofs.Module.Shadowing
import ExportSchema.Proofs.Module.Ancestry
import ExportSchema.Proofs.Module.LocalExport
import ExportSchema.Proofs.Module.DefaultExport
import ExportSchema.Proofs.TypeNode.OwnText
import ExportSchema.Proofs.Encoding.Detection
import ExportSchema.Proofs.Json.Place
