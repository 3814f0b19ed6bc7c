import Abslw.Endian
import Abslw.Zip.Basic
import Abslw.Zip.DirectoryEnd
import Abslw.Zip.DirectoryEndCopy
import Abslw.Zip.Extra
import Abslw.Zip.Header
import Abslw.Zip.Archive
import Abslw.Zip.Chain
import Abslw.Pe.Directory
import Abslw.Pe.Exports
import Abslw.Pe.Reader
import Abslw.Pe.Overlay
import Abslw.Pe.SectionBuffer
import Abslw.Pe.NewFile
import Abslw.Pe.StringTable
import Abslw.Sha512.Block
import Abslw.Sha512.Hasher
import Abslw.Sha512.Digest
import Abslw.Argv.Escape
