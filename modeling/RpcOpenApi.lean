import RpcOpenApi.CommandLine.Arguments
import RpcOpenApi.CommandLine.Run
import RpcOpenApi.Compile.Document
import RpcOpenApi.Files.Document
import RpcOpenApi.Files.Store
import RpcOpenApi.Format
import RpcOpenApi.Main
import RpcOpenApi.Rpc.Builder
import RpcOpenApi.Proofs.Compile.Run
import RpcOpenApi.Proofs.Compile.Placement
import RpcOpenApi.Proofs.Compile.Warnings
import RpcOpenApi.Proofs.Compile.Recompile
import RpcOpenApi.Proofs.Codec.Reading
import RpcOpenApi.Proofs.Codec.ReadBack
import RpcOpenApi.Proofs.Codec.Schema
import RpcOpenApi.Proofs.Codec.Parts
import RpcOpenApi.Proofs.Codec.Operation
import RpcOpenApi.Proofs.Codec.Document
import RpcOpenApi.Proofs.Codec.Service
import RpcOpenApi.Proofs.Codec.NormalForm
import RpcOpenApi.Proofs.Codec.Bounds
import RpcOpenApi.Proofs.Codec.Inheritance
import RpcOpenApi.Proofs.Compile.ReadBack
import RpcOpenApi.Proofs.Compile.Failure
import RpcOpenApi.Proofs.Lookup
import RpcOpenApi.Proofs.Compile.DistinctKeys
import RpcOpenApi.Proofs.Codec.Lossless
import RpcOpenApi.Proofs.Compile.Carried
import RpcOpenApi.Proofs.Codec.LosslessPaths
import RpcOpenApi.Proofs.Compile.References
import RpcOpenApi.Proofs.Json.Drafts
import RpcOpenApi.Proofs.Json.Rendered
import RpcOpenApi.Proofs.Codec.Order
import RpcOpenApi.Proofs.Codec.OrderOfParts
import RpcOpenApi.Proofs.Codec.OrderOfDescriptions
import RpcOpenApi.Proofs.Rearranged
import RpcOpenApi.Proofs.Compile.OrderOfOperations
import RpcOpenApi.Proofs.Compile.OrderOfDocuments
import RpcOpenApi.Proofs.Builder
import RpcOpenApi.Proofs.Compile.Splitting
import RpcOpenApi.Proofs.Compile.PlainInput
import RpcOpenApi.Proofs.Compile.Pointers
import RpcOpenApi.Proofs.Compile.Inlining
import RpcOpenApi.Proofs.Codec.Readable
import RpcOpenApi.Proofs.Compile.GeneratedParameters
import RpcOpenApi.Proofs.Yaml.Rendered
import RpcOpenApi.Proofs.Codec.Grammar
import RpcOpenApi.Proofs.Compile.ResponseCodes
import RpcOpenApi.Proofs.CommandLine.Generate
