/-!
# Kinds of syntax nodes

The node types and field names of the grammar of TypeScript modules that matter for exports; all
others are one kind, `other`, and no field.
-/

namespace ExportSchema

/-- The kind of a syntax node. -/
inductive Kind where
  | exportStatement | ambientDeclaration | lexicalDeclaration | variableDeclaration
  | variableDeclarator | functionDeclaration | generatorFunctionDeclaration | functionSignature
  | classDeclaration | abstractClassDeclaration | classExpression | interfaceDeclaration
  | typeAliasDeclaration | enumDeclaration | exportClause | exportSpecifier | namespaceExport
  | equalsSign | defaultKeyword | typeKeyword | asyncKeyword | constKeyword | questionMark
  | propertySignature | methodSignature | methodDefinition | extendsTypeClause
  | typeMark | predicateMark | assertsMark
  | enumAssignment | propertyIdentifier | identifier
  | requiredParameter | optionalParameter | statementBlock | returnStatement | comment
  | arrowFunction | functionExpression | functionKeyword | generatorFunction
  | number | string | templateString | trueWord | falseWord | nullWord | undefinedWord
  | array | object | spreadElement | pair | computedPropertyName | shorthandPropertyIdentifier
  | asExpression | satisfiesExpression | nonNullExpression | parenthesizedExpression
  | newExpression | unaryExpression | jsxElement | jsxSelfClosingElement | jsxFragment
  | other
  deriving DecidableEq, Repr

/-- The names of the kinds. -/
def Kind.table : List (String × Kind) :=
  [("export_statement", .exportStatement), ("ambient_declaration", .ambientDeclaration),
    ("lexical_declaration", .lexicalDeclaration), ("variable_declaration", .variableDeclaration),
    ("variable_declarator", .variableDeclarator), ("function_declaration", .functionDeclaration),
    ("generator_function_declaration", .generatorFunctionDeclaration),
    ("function_signature", .functionSignature), ("class_declaration", .classDeclaration),
    ("abstract_class_declaration", .abstractClassDeclaration), ("class", .classExpression),
    ("interface_declaration", .interfaceDeclaration),
    ("type_alias_declaration", .typeAliasDeclaration), ("enum_declaration", .enumDeclaration),
    ("export_clause", .exportClause), ("export_specifier", .exportSpecifier),
    ("namespace_export", .namespaceExport), ("=", .equalsSign), ("default", .defaultKeyword),
    ("type", .typeKeyword), ("async", .asyncKeyword), ("const", .constKeyword),
    ("?", .questionMark), ("property_signature", .propertySignature),
    ("method_signature", .methodSignature), ("method_definition", .methodDefinition),
    ("extends_type_clause", .extendsTypeClause), ("type_annotation", .typeMark),
    ("type_predicate_annotation", .predicateMark),
    ("asserts_annotation", .assertsMark), ("enum_assignment", .enumAssignment),
    ("property_identifier", .propertyIdentifier), ("identifier", .identifier),
    ("required_parameter", .requiredParameter), ("optional_parameter", .optionalParameter),
    ("statement_block", .statementBlock), ("return_statement", .returnStatement),
    ("comment", .comment), ("arrow_function", .arrowFunction),
    ("function_expression", .functionExpression), ("function", .functionKeyword),
    ("generator_function", .generatorFunction), ("number", .number), ("string", .string),
    ("template_string", .templateString), ("true", .trueWord), ("false", .falseWord),
    ("null", .nullWord), ("undefined", .undefinedWord), ("array", .array), ("object", .object),
    ("spread_element", .spreadElement), ("pair", .pair),
    ("computed_property_name", .computedPropertyName),
    ("shorthand_property_identifier", .shorthandPropertyIdentifier),
    ("as_expression", .asExpression), ("satisfies_expression", .satisfiesExpression),
    ("non_null_expression", .nonNullExpression),
    ("parenthesized_expression", .parenthesizedExpression), ("new_expression", .newExpression),
    ("unary_expression", .unaryExpression), ("jsx_element", .jsxElement),
    ("jsx_self_closing_element", .jsxSelfClosingElement), ("jsx_fragment", .jsxFragment)]

/-- The kind of a name. -/
def Kind.ofName (name : String) : Kind := (table.lookup name).getD .other

/-- A declaration of a named function. -/
def Kind.isFunction : Kind → Bool
  | functionDeclaration | generatorFunctionDeclaration | functionSignature => true
  | _ => false

/-- A declaration of a class. -/
def Kind.isClass : Kind → Bool
  | classDeclaration | abstractClassDeclaration => true
  | _ => false

/-- A declaration of variables. -/
def Kind.isVariables : Kind → Bool
  | lexicalDeclaration | variableDeclaration => true
  | _ => false

/-- A function as an expression. -/
def Kind.isFunctionExpression : Kind → Bool
  | arrowFunction | functionExpression | functionKeyword | generatorFunction => true
  | _ => false

/-- The field under which a node stands in its parent. -/
inductive Field where
  | name | alias | source | declaration | value | body | type | returnType | typeParameters
  | parameter | parameters | pattern | key | operator | constructorField
  deriving DecidableEq, Repr

/-- The names of the fields. -/
def Field.table : List (String × Field) :=
  [("name", .name), ("alias", .alias), ("source", .source), ("declaration", .declaration),
    ("value", .value), ("body", .body), ("type", .type), ("return_type", .returnType),
    ("type_parameters", .typeParameters), ("parameter", .parameter), ("parameters", .parameters),
    ("pattern", .pattern), ("key", .key), ("operator", .operator),
    ("constructor", .constructorField)]

/-- The field of a name. -/
def Field.ofName? (name : String) : Option Field := table.lookup name

end ExportSchema
