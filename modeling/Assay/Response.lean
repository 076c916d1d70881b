-- The analysis as clients see it: tokens, trees and findings as JSON, with
-- the fields in a fixed order.
import Assay.Analysis
import Assay.Json.Basic

namespace Assay

/-- A token as JSON. The code of its problem is left out. -/
def Token.toJson (token : Token) : Json :=
  .object
    ([("type", .string token.kind.tag),
      ("value", .string token.value),
      ("line", .ofInt token.position.line),
      ("column", .ofInt token.position.column)]
      ++ (token.error.map (fun problem =>
        ("error", Json.object
          [("message", .string problem.message),
           ("suggestion", .string problem.suggestion)]))).toList)

mutual

/-- A tree as JSON. What a node does not have is left out, an empty list of children too. -/
def Node.toJson : Node → Json
  | ⟨kind, value, children, token⟩ =>
    .object
      ([("type", Json.string kind.tag)]
        ++ (value.map (fun text => ("value", Json.string text))).toList
        ++ (if children.isEmpty then [] else [("children", Json.array (Node.toJsonAll children))])
        ++ (token.map (fun token => ("token", token.toJson))).toList)

def Node.toJsonAll : List Node → List Json
  | [] => []
  | node :: rest => node.toJson :: Node.toJsonAll rest

end

def Diagnostic.toJson (d : Diagnostic) : Json :=
  .object
    [("code", .string d.problem.code),
     ("message", .string d.problem.message),
     ("line", .ofInt d.position.line),
     ("column", .ofInt d.position.column),
     ("token", d.token.toJson),
     ("suggestion", .string d.problem.suggestion)]

def language : String := "python"

def Analysis.toJson (analysis : Analysis) : Json :=
  .object
    [("success", .bool true),
     ("language", .string language),
     ("tokens", .array (analysis.tokens.map Token.toJson)),
     ("ast", (analysis.tree.map Node.toJson).getD .null),
     ("lexicalErrors", .array (analysis.lexicalErrors.map Diagnostic.toJson)),
     ("syntaxErrors", .array (analysis.syntaxErrors.map Diagnostic.toJson)),
     ("totalTokens", .ofNat analysis.tokens.length),
     ("totalErrors", .ofNat analysis.totalErrors),
     ("hasErrors", .bool analysis.hasErrors)]

end Assay
