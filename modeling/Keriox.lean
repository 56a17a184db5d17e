import Keriox.HashMap
import Keriox.Event
import Keriox.State
import Keriox.Database.Log
import Keriox.Database.Sequenced
import Keriox.Database.Escrow
import Keriox.Database.Memory
import Keriox.Processor.Notification
import Keriox.Concurrency.Interleaving
import Keriox.Concurrency.Kel
import Keriox.Concurrency.Escrow
import Keriox.Concurrency.Writers
import Keriox.Tel.Database
import Keriox.Concurrency.System
