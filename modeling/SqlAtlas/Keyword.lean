import SqlAtlas.Text.Lower

/-!
# Keywords

The fixed word lists of the scanners. A word is looked up with its ASCII letters in upper case;
delimited identifiers are never looked up.
-/

namespace SqlAtlas.Keyword

set_option autoImplicit false

def reservedWords : List String :=
  ["SELECT", "FROM", "WHERE", "AND", "OR", "NOT", "NULL", "IS", "IN", "AS", "ON", "JOIN",
   "LEFT", "RIGHT", "INNER", "OUTER", "CROSS", "FULL", "APPLY", "INSERT", "INTO", "VALUES",
   "UPDATE", "SET", "DELETE", "MERGE", "USING", "MATCHED", "CREATE", "ALTER", "DROP",
   "TRUNCATE", "TABLE", "VIEW", "INDEX", "PROCEDURE", "PROC", "FUNCTION", "TRIGGER",
   "RETURNS", "BEGIN", "END", "IF", "ELSE", "WHILE", "BREAK", "CONTINUE", "RETURN", "DECLARE",
   "PRINT", "THROW", "TRY", "CATCH", "TRAN", "TRANSACTION", "COMMIT", "ROLLBACK", "MAX",
   "PRIMARY", "FOREIGN", "REFERENCES", "UNIQUE", "CHECK", "DEFAULT", "CONSTRAINT", "IDENTITY",
   "NOCOUNT", "COUNT", "SUM", "AVG", "MIN", "ISNULL", "COALESCE", "CAST", "CONVERT", "CASE",
   "WHEN", "THEN", "EXEC", "EXECUTE", "GO", "USE", "DATABASE", "SCHEMA", "GRANT", "REVOKE",
   "DENY", "ORDER", "BY", "GROUP", "HAVING", "DISTINCT", "TOP", "PERCENT", "OFFSET", "FETCH",
   "NEXT", "ROWS", "ONLY", "UNION", "ALL", "EXCEPT", "INTERSECT", "EXISTS", "ANY", "SOME",
   "LIKE", "BETWEEN", "ASC", "DESC", "CLUSTERED", "NONCLUSTERED", "OUTPUT", "READONLY",
   "WITH", "NOLOCK", "OVER", "PARTITION", "COLLATE", "SCOPE_IDENTITY"]

/-- Built-in types. They are common column names too, so they count only where a type may stand. -/
def typeWords : List String :=
  ["INT", "VARCHAR", "NVARCHAR", "CHAR", "NCHAR", "TEXT", "NTEXT", "BIT", "TINYINT",
   "SMALLINT", "BIGINT", "DECIMAL", "NUMERIC", "FLOAT", "REAL", "MONEY", "SMALLMONEY", "DATE",
   "TIME", "DATETIME", "DATETIME2", "SMALLDATETIME", "DATETIMEOFFSET", "UNIQUEIDENTIFIER",
   "BINARY", "VARBINARY", "IMAGE", "XML", "SQL_VARIANT", "ROWVERSION", "GEOGRAPHY",
   "GEOMETRY", "HIERARCHYID"]

/-- Words at the start of a row of a table body that declare no column. -/
def constraintWords : List String :=
  ["CONSTRAINT", "PRIMARY", "FOREIGN", "CHECK", "UNIQUE", "INDEX"]

def statementWords : List String :=
  ["SELECT", "INSERT", "UPDATE", "DELETE", "MERGE", "WITH", "DECLARE", "SET", "IF", "ELSE",
   "WHILE", "BEGIN", "END", "RETURN", "EXEC", "EXECUTE", "CREATE", "ALTER", "DROP",
   "TRUNCATE", "PRINT", "THROW", "RAISERROR", "OPEN", "CLOSE", "FETCH", "DEALLOCATE",
   "COMMIT", "ROLLBACK", "GRANT", "DENY", "REVOKE", "USE", "BREAK", "CONTINUE", "WAITFOR"]

/-- Words that end a table reference, and so are never aliases. -/
def aliasStopWords : List String :=
  ["ON", "WHERE", "INNER", "LEFT", "RIGHT", "OUTER", "CROSS", "FULL", "JOIN", "APPLY",
   "GROUP", "ORDER", "HAVING", "UNION", "EXCEPT", "INTERSECT", "WITH", "AND", "OR", "NOT",
   "SET", "FROM", "SELECT", "INSERT", "UPDATE", "DELETE", "MERGE", "INTO", "VALUES", "WHEN",
   "THEN", "ELSE", "END", "CASE", "FOR", "OPTION", "OUTPUT", "USING", "AS", "PIVOT",
   "UNPIVOT", "RETURN", "DECLARE", "IF", "BEGIN", "EXEC", "EXECUTE", "GO"]

/-- Whether a word is listed, whatever the case of its ASCII letters. -/
def oneOf (words : List String) (word : List Char) : Bool :=
  words.contains (String.ofList (Text.asciiUpper word))

def isReserved (word : List Char) : Bool := oneOf reservedWords word

def isTypeWord (word : List Char) : Bool := oneOf typeWords word

def isConstraintWord (word : List Char) : Bool := oneOf constraintWords word

def startsStatement (word : List Char) : Bool := oneOf statementWords word

def stopsAlias (word : List Char) : Bool := oneOf aliasStopWords word

def isWord (keyword : String) (word : List Char) : Bool :=
  Text.asciiUpper word == keyword.toList

end SqlAtlas.Keyword
